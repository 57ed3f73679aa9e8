import Signatory.Binary64.Decimal
import Signatory.Binary64.Hexadecimal
import Signatory.Cbor.Basic
import Signatory.Text.Quoted

/-! Items in words, for messages that show an item of an unexpected kind. -/

namespace Signatory.Cbor.Value
set_option autoImplicit false

/-- A byte between quotes; only visible ASCII stands for itself. -/
def displayByte (quote : CodePoint) (b : UInt8) : Text :=
  let p := CodePoint.ofByte b
  if b < 127 then Text.Quoted.point quote p else Text.Quoted.escape p

def displayBytes (b : Bytes) : Text :=
  let quote := Text.Quoted.mark (b.map CodePoint.ofByte)
  CodePoint.ofChar 'b' :: quote :: b.flatMap (displayByte quote) ++ [quote]

/-- Items between round brackets; a single one keeps its comma. -/
def displayTuple : List Text → Text
  | [item] => .concat ["(", item, ",)"]
  | items => .concat ["(", .join ", " items, ")"]

mutual

def display : Value → Text
  | null => "None"
  | bool b => if b then "True" else "False"
  | int i => .ofInt i
  | float x => x.render
  | bytes b => displayBytes b
  | text s => Text.Quoted.encode s
  | list items => .concat ["[", .join ", " (displayAll items), "]"]
  | tuple items => displayTuple (displayAll items)
  | map entries => .concat ["\x7b", .join ", " (displayEntries entries), "\x7d"]
  | simple n => if n = 23 then "undefined" else .concat ["CBORSimpleValue(value=", .ofNat n, ")"]
  | tagged tag item => .concat ["CBORTag(", .ofNat tag, ", ", display item, ")"]

def displayAll : List Value → List Text
  | [] => []
  | v :: vs => display v :: displayAll vs

def displayEntries : List (Value × Value) → List Text
  | [] => []
  | (k, v) :: es => .concat [display k, ": ", display v] :: displayEntries es

end

/-- An item inside a sentence: a text stands there without quotes. -/
def inWords : Value → Text
  | text s => s
  | v => display v

def hex? : Value → Option Text
  | bytes b => some (Bytes.hex b)
  | float x => some x.renderHex
  | _ => none

end Signatory.Cbor.Value
