import Signatory.Cbor.Basic
import Signatory.Text.Utf8

/-! Canonical CBOR: every head in its shortest form, doubles in the narrowest format that keeps their
value, map entries by the length of the written key and then by its bytes. -/

namespace Signatory.Cbor
set_option autoImplicit false

/-- What the low five bits of a head say of its argument: a small one itself, or its width. -/
def headInfo (n : Nat) : Nat :=
  if n < 24 then n
  else if n < 0x100 then 24
  else if n < 0x10000 then 25
  else if n < 0x100000000 then 26
  else if n < 0x10000000000000000 then 27
  else 28

/-- The argument as far as it stands after the first byte. CBOR counts up to 64 bits, more than any list has items;
a greater count is written in unary, so that no two heads are alike. -/
def headTail (n : Nat) : Bytes :=
  if n < 24 then []
  else if n < 0x100 then Bytes.ofNat 1 n
  else if n < 0x10000 then Bytes.ofNat 2 n
  else if n < 0x100000000 then Bytes.ofNat 4 n
  else if n < 0x10000000000000000 then Bytes.ofNat 8 n
  else List.replicate n 0 ++ [1]

/-- The head of an item: its major type and its argument. -/
def head (major n : Nat) : Bytes := UInt8.ofNat (32 * major + headInfo n) :: headTail n

def magnitude (n : Nat) : Bytes := Bytes.ofNat (n.log2 / 8 + 1) n

def encodeBytes (b : Bytes) : Bytes := head 2 b.length ++ b

/-- A number of 64 bits stands in the head; a greater one is a tagged byte string. -/
def encodeNat (major n : Nat) : Bytes :=
  if n < 0x10000000000000000 then head major n else head 6 (2 + major) ++ encodeBytes (magnitude n)

def encodeInt : Int → Bytes
  | .ofNat n => encodeNat 0 n
  | .negSucc n => encodeNat 1 n

/-- The narrowest of the three formats that keeps the value. -/
def encodeFloat (x : Binary64) : Bytes :=
  let half := BinaryFormat.half.ofValue x.value
  let single := BinaryFormat.single.ofValue x.value
  if .ofValue (BinaryFormat.half.value half) = x then 0xF9 :: Bytes.ofNat 2 half
  else if .ofValue (BinaryFormat.single.value single) = x then 0xFA :: Bytes.ofNat 4 single
  else 0xFB :: Bytes.ofNat 8 x.bits.toNat

def encodeText (s : Text) : Bytes :=
  let b := Text.Utf8.encode s
  head 3 b.length ++ b

def bytesLe : Bytes → Bytes → Bool
  | [], _ => true
  | _ :: _, [] => false
  | a :: as, b :: bs => a < b || (a == b && bytesLe as bs)

def keyLe (a b : Bytes) : Bool :=
  a.length < b.length || (a.length == b.length && bytesLe a b)

def sortEntries (entries : List (Bytes × Bytes)) : List (Bytes × Bytes) :=
  entries.mergeSort fun e f => keyLe e.1 f.1

mutual

def encode : Value → Bytes
  | .null => [0xF6]
  | .bool b => if b then [0xF5] else [0xF4]
  | .int i => encodeInt i
  | .float x => encodeFloat x
  | .bytes b => encodeBytes b
  | .text s => encodeText s
  | .list items => head 4 items.length ++ (encodeAll items).flatten
  | .tuple items => head 4 items.length ++ (encodeAll items).flatten
  | .map entries =>
    head 5 entries.length ++ (sortEntries (encodeEntries entries)).flatMap fun e => e.1 ++ e.2
  | .simple n => head 7 n
  | .tagged tag item => head 6 tag ++ encode item

def encodeAll : List Value → List Bytes
  | [] => []
  | v :: vs => encode v :: encodeAll vs

def encodeEntries : List (Value × Value) → List (Bytes × Bytes)
  | [] => []
  | (k, v) :: es => (encode k, encode v) :: encodeEntries es

end

def encode? (v : Value) : Option Bytes := if v.isUnicode then some (encode v) else none

end Signatory.Cbor
