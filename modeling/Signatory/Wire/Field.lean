import Signatory.Cbor.Tag
import Signatory.Checked
import Signatory.Text.Numeral
import Signatory.Text.Utf8

/-! Fields of received maps: how to find them, what integer, truth value or list an item stands for, and which
items a record takes for bytes or text. -/

namespace Signatory.Wire
set_option autoImplicit false
open Cbor

def required (name : Text) (v : Value) : Except Error Value :=
  match v with
  | .map _ =>
    match v.field? name with
    | some item => .ok item
    | none => .error (.missingField name)
  | _ => .error .wrongKind

def optional (name : Text) (default : Value) (v : Value) : Except Error Value :=
  match v with
  | .map _ => .ok ((v.field? name).getD default)
  | _ => .error .noOperation

/-- The integer that an item stands for: a number cut toward zero, a truth value, a decimal numeral, or what a tag makes
one of. -/
def toInt : Value → Except Error Int
  | .bool b => .ok (if b then 1 else 0)
  | .int i => .ok i
  | .float x =>
    match x.value.truncate? with
    | some i => .ok i
    | none => .error (if x.isNaN then .unreadable else .overflow)
  | .text s => (Text.Numeral.decimal? s).elim (.error .unreadable) .ok
  | .bytes b => (Text.Numeral.decimalAscii? (b.map CodePoint.ofByte)).elim (.error .unreadable) .ok
  | .tagged tag item => (item.markedInt? tag).elim (.error .wrongKind) .ok
  | _ => .error .wrongKind

/-- Whether an item counts as true: all but zeros, what is empty, and what is absent. -/
def isTrue : Value → Bool
  | .null => false
  | .bool b => b
  | .int i => i ≠ 0
  | .float x => !x.isZero
  | .bytes b => !b.isEmpty
  | .text s => !s.isEmpty
  | .list items => !items.isEmpty
  | .tuple items => !items.isEmpty
  | .map entries => !entries.isEmpty
  | .simple n => n ≠ 23
  | .tagged tag item => item.isMarkedTrue tag

/-- The items that an item is made of: those of a list, the keys of a map, the characters of a text, the
numbers of a byte string, the number of a simple value, or what a tag makes items of. -/
def toItems : Value → Except Error (List Value)
  | .list items => .ok items
  | .tuple items => .ok items
  | .map entries => .ok (Entries.keys entries)
  | .text s => .ok (s.map fun p => .text [p])
  | .bytes b => .ok (b.map fun byte => .int byte.toNat)
  | .simple n => if n = 23 then .error .wrongKind else .ok [.int n]
  | .tagged tag item => (item.markedItems? tag).elim (.error .wrongKind) .ok
  | _ => .error .wrongKind

/-- Bytes, or a text for its UTF-8 form. -/
def bytesField (place : Text) : Value → Checked Bytes
  | .bytes b => .ok b
  | .text s => (Text.Utf8.encode? s).elim (.fault place .notUtf8) .ok
  | _ => .fault place .notBytes

/-- A text, or bytes that are its UTF-8 form. -/
def textField (place : Text) : Value → Checked Text
  | .text s => .ok s
  | .bytes b =>
    match Text.Utf8.decode? b with
    | some s => .ok s
    | none => .fault place .notUtf8
  | _ => .fault place .notText

/-- A member of a family that is known by names; the name may come as bytes, too. -/
def memberField {α : Type} (ofName? : Text → Option α) (place : Text) (v : Value) : Checked α :=
  match textField place v with
  | .ok s =>
    if s.any CodePoint.isSurrogate then .fault place .notUtf8 else (ofName? s).elim (.fault place .notMember) .ok
  | .error _ => .fault place .notMember

def bytesListFrom (place : Text) (position : Nat) : List Value → Checked (List Bytes)
  | [] => .ok []
  | v :: vs =>
    ((bytesField (.concat [place, ".", .ofNat position]) v).and (bytesListFrom place (position + 1) vs)).map
      fun r => r.1 :: r.2

def bytesListField (place : Text) (items : List Value) : Checked (List Bytes) := bytesListFrom place 0 items

end Signatory.Wire
