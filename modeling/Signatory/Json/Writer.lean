import Signatory.Json.Basic
import Signatory.Text.Numeral

/-! The canonical text of a JSON value: ASCII only, no blanks, keys in the order of their code points,
doubles by the fewest digits that read back. -/

namespace Signatory.Json
set_option autoImplicit false

def unitEscape (n : Nat) : Text := "\\u" ++ Text.ofHex 4 n

/-- A code point inside quotes. Code points beyond sixteen bits become a surrogate pair. -/
def escapePoint (p : CodePoint) : Text :=
  if p.is '"' then "\\\""
  else if p.is '\\' then "\\\\"
  else if p.is '\n' then "\\n"
  else if p.is '\r' then "\\r"
  else if p.is '\t' then "\\t"
  else if p.val = 12 then "\\f"
  else if p.val = 8 then "\\b"
  else if 32 ≤ p.val ∧ p.val < 127 then [p]
  else if p.val < 0x10000 then unitEscape p.val
  else
    let n := p.val - 0x10000
    unitEscape (0xD800 + n / 1024) ++ unitEscape (0xDC00 + n % 1024)

def quote (s : Text) : Text :=
  CodePoint.ofChar '"' :: s.flatMap escapePoint ++ [CodePoint.ofChar '"']

def renderFloat (x : Binary64) : Text :=
  match x.value with
  | .nan => "NaN"
  | .infinite negative => if negative then "-Infinity" else "Infinity"
  | _ => x.render

def enclose (opening closing : Char) (items : List Text) : Text :=
  CodePoint.ofChar opening :: Text.join "," items ++ [CodePoint.ofChar closing]

/-- Fields with their keys in order. -/
def sortFields (fields : List (Text × Text)) : List (Text × Text) :=
  fields.mergeSort fun a b => Text.le a.1 b.1

mutual

def render : Json → Text
  | null => "null"
  | bool b => if b then "true" else "false"
  | int i => Text.ofInt i
  | float x => renderFloat x
  | text s => quote s
  | list items => enclose '[' ']' (renderAll items)
  | object fields =>
    enclose '{' '}' ((sortFields (renderFields fields)).map fun f => Text.concat [quote f.1, ":", f.2])

def renderAll : List Json → List Text
  | [] => []
  | v :: vs => render v :: renderAll vs

def renderFields : List (Text × Json) → List (Text × Text)
  | [] => []
  | (k, v) :: fs => (k, render v) :: renderFields fs

end

mutual

/-- Whether no integer in a value is too long to be written. -/
def isWritable : Json → Bool
  | int i => Text.Numeral.isWritable i
  | list items => areWritable items
  | object fields => areFieldsWritable fields
  | _ => true

def areWritable : List Json → Bool
  | [] => true
  | v :: vs => isWritable v && areWritable vs

def areFieldsWritable : List (Text × Json) → Bool
  | [] => true
  | (_, v) :: fs => isWritable v && areFieldsWritable fs

end

end Signatory.Json
