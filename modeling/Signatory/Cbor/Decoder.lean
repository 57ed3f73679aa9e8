import Signatory.Cbor.Tag
import Signatory.Text.Utf8

/-! Reading a CBOR item at the front of a byte string. Heads of any length and items of indefinite length
are accepted; chunks of a string must be of its own kind and of definite length. Lists and maps may stand in
one another up to a fixed depth. -/

namespace Signatory.Cbor
set_option autoImplicit false

def take? (n : Nat) (b : Bytes) : Option (Bytes × Bytes) :=
  if (b.take n).length = n then some (b.splitAt n) else none

def argument? (info : Nat) (b : Bytes) : Option (Nat × Bytes) :=
  if info < 24 then some (info, b)
  else if 28 ≤ info then none
  else (take? (Nat.pow 2 (info - 24)) b).map fun r => (r.1.toNat, r.2)

def float? (info : Nat) (b : Bytes) : Option (Binary64 × Bytes) :=
  let format? : Option (Nat × BinaryFormat) :=
    if info = 25 then some (2, .half)
    else if info = 26 then some (4, .single)
    else if info = 27 then some (8, .double)
    else none
  do
    let (width, format) ← format?
    let (raw, rest) ← take? width b
    return (.ofValue (format.value raw.toNat), rest)

/-- An item of major type 7 that is no break. -/
def special? (info : Nat) (b : Bytes) : Option (Value × Bytes) :=
  if info = 20 then some (.bool false, b)
  else if info = 21 then some (.bool true, b)
  else if info = 22 then some (.null, b)
  else if info < 24 then some (.simple info, b)
  else if info = 24 then
    match b with
    | n :: rest => if n < 32 then none else some (.simple n.toNat, rest)
    | [] => none
  else (float? info b).map fun r => (.float r.1, r.2)

def chunk? (info : Nat) (b : Bytes) : Option (Bytes × Bytes) := do
  let (n, rest) ← argument? info b
  take? n rest

def chunks? (major : Nat) : (fuel : Nat) → Bytes → Option (List Bytes × Bytes)
  | 0, _ => none
  | _ + 1, [] => none
  | n + 1, first :: rest =>
    if first = 0xFF then some ([], rest)
    else if first.toNat / 32 = major then do
      let (c, rest) ← chunk? (first.toNat % 32) rest
      let (cs, rest) ← chunks? major n rest
      return (c :: cs, rest)
    else none

def string? (major info : Nat) (b : Bytes) : Option (List Bytes × Bytes) :=
  if info = 31 then chunks? major b.length b
  else (chunk? info b).map fun r => ([r.1], r.2)

def bigNumber? (tag : Nat) : Value → Option Value
  | .bytes b => some (.int (if tag = 2 then (b.toNat : Int) else -1 - (b.toNat : Int)))
  | _ => none

/-- Whether a tag leaves the item that it marks as it is: a shared item, a scope of shared strings, and the mark
of the format do. -/
def isTransparent (tag : Nat) : Bool := tag = 28 || tag = 256 || tag = 55799

def ofTag? (tag : Nat) (item : Value) : Option Value :=
  if tag = 2 ∨ tag = 3 then bigNumber? tag item
  else if isTransparent tag then some item
  else (Meaning.of? tag item).map fun _ => .tagged tag item

/-- How many lists and maps may stand in one another. -/
def maxDepth : Nat := 400

def inside? (room : Nat) : Option Nat := if room = 0 then none else some (room - 1)

mutual

/-- One item with room for so many lists and maps in one another; inside a key, lists are tuples. -/
def item? : (fuel : Nat) → (room : Nat) → (inKey : Bool) → Bytes → Option (Value × Bytes)
  | 0, _, _, _ => none
  | _ + 1, _, _, [] => none
  | n + 1, room, inKey, first :: rest =>
    let major := first.toNat / 32
    let info := first.toNat % 32
    if major = 0 then (argument? info rest).map fun r => (.int r.1, r.2)
    else if major = 1 then (argument? info rest).map fun r => (.int (-1 - (r.1 : Int)), r.2)
    else if major = 2 then (string? 2 info rest).map fun r => (.bytes r.1.flatten, r.2)
    else if major = 3 then do
      let (chunks, rest) ← string? 3 info rest
      let parts ← chunks.mapM Text.Utf8.decode?
      return (.text parts.flatten, rest)
    else if major = 4 then do
      let room ← inside? room
      let (items, rest) ←
        if info = 31 then openItems? n room inKey rest
        else
          let (count, rest) ← argument? info rest
          items? n room inKey count rest
      return (if inKey then .tuple items else .list items, rest)
    else if major = 5 then do
      let room ← inside? room
      let (entries, rest) ←
        if info = 31 then openEntries? n room inKey rest
        else
          let (count, rest) ← argument? info rest
          entries? n room inKey count rest
      return (.ofEntries entries, rest)
    else if major = 6 then do
      let (tag, rest) ← argument? info rest
      let (v, rest) ← item? n room inKey rest
      return (← ofTag? tag v, rest)
    else special? info rest

def items? : (fuel : Nat) → (room : Nat) → (inKey : Bool) → (count : Nat) → Bytes →
    Option (List Value × Bytes)
  | _, _, _, 0, b => some ([], b)
  | 0, _, _, _ + 1, _ => none
  | n + 1, room, inKey, count + 1, b => do
    let (v, rest) ← item? n room inKey b
    let (vs, rest) ← items? n room inKey count rest
    return (v :: vs, rest)

def openItems? : (fuel : Nat) → (room : Nat) → (inKey : Bool) → Bytes → Option (List Value × Bytes)
  | 0, _, _, _ => none
  | n + 1, room, inKey, b =>
    if b.head? = some 0xFF then some ([], b.drop 1)
    else do
      let (v, rest) ← item? n room inKey b
      let (vs, rest) ← openItems? n room inKey rest
      return (v :: vs, rest)

def entries? : (fuel : Nat) → (room : Nat) → (inKey : Bool) → (count : Nat) → Bytes →
    Option (List (Value × Value) × Bytes)
  | _, _, _, 0, b => some ([], b)
  | 0, _, _, _ + 1, _ => none
  | n + 1, room, inKey, count + 1, b => do
    let (k, rest) ← item? n room true b
    let (v, rest) ← item? n room inKey rest
    let (es, rest) ← entries? n room inKey count rest
    return ((k, v) :: es, rest)

def openEntries? : (fuel : Nat) → (room : Nat) → (inKey : Bool) → Bytes →
    Option (List (Value × Value) × Bytes)
  | 0, _, _, _ => none
  | n + 1, room, inKey, b =>
    if b.head? = some 0xFF then some ([], b.drop 1)
    else do
      let (k, rest) ← item? n room true b
      let (v, rest) ← item? n room inKey rest
      let (es, rest) ← openEntries? n room inKey rest
      return ((k, v) :: es, rest)

end

/-- The item at the front; bytes after it do not matter. -/
def decode? (b : Bytes) : Option Value := (item? (2 * b.length + 2) maxDepth false b).map Prod.fst

end Signatory.Cbor
