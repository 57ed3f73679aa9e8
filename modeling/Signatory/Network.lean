import Signatory.Error
import Signatory.Json.Basic

/-! Networks that a gateway can reach, by name. -/

namespace Signatory
set_option autoImplicit false

structure Network where
  name : Text
  host : Text
  secure : Bool := false
  deriving DecidableEq

namespace Network

def embeddedHost : Text := "embedded"

def isEmbedded (n : Network) : Bool := n.host = embeddedHost

/-- The networks that are always known. -/
def defaults : List (Text × Network) := [
  ("embedded", { name := "embedded", host := embeddedHost }),
  ("emulator", { name := "emulator", host := "127.0.0.1:3569" })]

def find (networks : List (Text × Network)) (name : Text) : Except Error Network :=
  match Entries.find? name networks with
  | some n => .ok n
  | none => .error (.networkUnknown name)

def textField (name : Text) (fields : List (Text × Json)) : Except FieldProblem Text :=
  match Entries.find? name fields with
  | none => .error ⟨name, .missing⟩
  | some (.text s) => .ok s
  | some _ => .error ⟨name, .notText⟩

/-- Words for yes and no, in small letters. -/
def truthWords : List (Text × Bool) := [
  ("0", false), ("off", false), ("f", false), ("false", false), ("n", false), ("no", false),
  ("1", true), ("on", true), ("t", true), ("true", true), ("y", true), ("yes", true)]

/-- One or zero. Other integers of 64 bits are no truth values, greater ones are of the wrong kind. -/
def truthInt (place : Text) (i : Int) : Except FieldProblem Bool :=
  if i = 0 then .ok false
  else if i = 1 then .ok true
  else if -0x8000000000000000 ≤ i ∧ i < 0x8000000000000000 then .error ⟨place, .badBool⟩
  else .error ⟨place, .notBool⟩

/-- A truth value, or a number or a word for one; a number with a fraction is of the wrong kind. -/
def truthField (place : Text) : Json → Except FieldProblem Bool
  | .bool b => .ok b
  | .int i => truthInt place i
  | .float x =>
    match x.value.truncate? with
    | some i => if Number.float x == .int i then truthInt place i else .error ⟨place, .notBool⟩
    | none => .error ⟨place, .notBool⟩
  | .text s =>
    if s.any CodePoint.isSurrogate then .error ⟨place, .notUtf8⟩
    else (Entries.find? (Text.toLower s) truthWords).elim (.error ⟨place, .badBool⟩) .ok
  | _ => .error ⟨place, .notBool⟩

/-- A network read from its fields; the error tells all that is wrong with them. -/
def ofFields (fields : List (Text × Json)) : Except Error Network :=
  let name := textField "name" fields
  let host := textField "host" fields
  let secure := ((Entries.find? ("secure" : Text) fields).map (truthField "secure")).getD (.ok false)
  match name, host, secure with
  | .ok name, .ok host, .ok secure => .ok { name, host, secure }
  | _, _, _ =>
    let problem := fun {α : Type} (r : Except FieldProblem α) =>
      match r with
      | .ok _ => ([] : List FieldProblem)
      | .error p => [p]
    .error (.invalid (problem name ++ problem host ++ problem secure))

end Network

end Signatory
