import Signatory.Error
import Signatory.Json.Reader
import Signatory.Json.Writer
import Signatory.Text.Utf8

/-! Typed values, the arguments of transactions and scripts: objects with a `type` and, unless that is
`Void`, a `value`. They travel as canonical JSON. Values may stand in one another as deep as they like, for writing and
for reading: the stack of the host is taken as unlimited. -/

namespace Signatory.Argument
set_option autoImplicit false

/-- What an error message calls the kind of a value. -/
def kind : Json → Text
  | .null => "NoneType"
  | .bool _ => "bool"
  | .int _ => "int"
  | .float _ => "float"
  | .text _ => "str"
  | .list _ => "list"
  | .object _ => "dict"

def checkFields (position : Nat) (fields : List (Text × Json)) : Except Error Unit :=
  match Entries.find? ("type" : Text) fields with
  | some (.text (p :: rest)) =>
    if (Entries.find? ("value" : Text) fields).isSome || p :: rest == ("Void" : Text) then .ok ()
    else .error (.argument (.noValue position (p :: rest)))
  | _ => .error (.argument (.noType position))

def check (position : Nat) : Json → Except Error Unit
  | .object fields => checkFields position fields
  | v => .error (.argument (.notObject position (kind v)))

/-- The text of a typed value, in bytes. -/
def encode (v : Json) : Except Error Bytes := do
  check 0 v
  if v.isWritable then return Text.Utf8.encode v.render
  else .error .overlongNumeral

def decode (data : Bytes) : Except Error Json := do
  match (Text.Utf8.decode? data).bind Json.parse? with
  | none => .error (.argument .badEncoding)
  | some v =>
    check 0 v
    return v

def checkFrom (position : Nat) : List Json → Except Error Unit
  | [] => .ok ()
  | v :: vs => do
    check position v
    checkFrom (position + 1) vs

def parseList (s : Text) : Except Error (List Json) := do
  match Json.parse? s with
  | none => .error (.argument .badJson)
  | some (.list vs) =>
    checkFrom 0 vs
    return vs
  | some _ => .error (.argument .notArray)

end Signatory.Argument
