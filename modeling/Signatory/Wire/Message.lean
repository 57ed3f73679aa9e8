import Signatory.Cbor.Decoder
import Signatory.Cbor.Encoder
import Signatory.Error
import Signatory.Wire.Frame

/-! Messages: maps that travel as one framed item. -/

namespace Signatory.Wire
set_option autoImplicit false
open Cbor

def taggedKind : Meaning → Text
  | .instant => "datetime"
  | .date => "date"
  | .decimal => "Decimal"
  | .ratio => "Fraction"
  | .complex => "complex"
  | .pattern => "Pattern"
  | .mail => "Message"
  | .uuid => "UUID"
  | .set => "set"
  | .address n => if n = 4 then "IPv4Address" else "IPv6Address"
  | .network n => if n = 4 then "IPv4Network" else "IPv6Network"
  | .unregistered => "CBORTag"

def kind : Value → Text
  | .null => "NoneType"
  | .bool _ => "bool"
  | .int _ => "int"
  | .float _ => "float"
  | .bytes _ => "bytes"
  | .text _ => "str"
  | .list _ => "list"
  | .tuple _ => "tuple"
  | .map _ => "dict"
  | .simple n => if n = 23 then "UndefinedType" else "CBORSimpleValue"
  | .tagged tag item => taggedKind ((Meaning.of? tag item).getD .unregistered)

/-- A message in its frame. A text with a surrogate cannot be written. -/
def encodeMessage (message : Value) : Except Error Bytes :=
  match Cbor.encode? message with
  | some payload => .ok (Frame.wrap payload)
  | none => .error .notUnicode

/-- The map in a frame; an empty frame holds an empty one. -/
def decodeMessage (data : Bytes) : Except Error Value :=
  match Frame.unwrap? data with
  | none => .error .badFrame
  | some [] => .ok (.map [])
  | some payload =>
    match Cbor.decode? payload with
    | none => .error .malformedMessage
    | some (.map entries) => .ok (.map entries)
    | some v => .error (.notAMap (kind v))

end Signatory.Wire
