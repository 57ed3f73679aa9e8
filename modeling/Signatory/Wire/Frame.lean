import Signatory.Text.Basic

/-! The frame of a message on the wire: one length-delimited field with number 1. An empty payload is
framed by no bytes at all. Reading skips every other field and keeps the last field 1. -/

namespace Signatory.Wire.Frame
set_option autoImplicit false

/-- Seven bits a byte, the low ones first; the top bit marks that more follow. -/
def varint (n : Nat) : Bytes :=
  if n < 128 then [UInt8.ofNat n] else UInt8.ofNat (128 + n % 128) :: varint (n / 128)
termination_by n
decreasing_by omega

def wrap (payload : Bytes) : Bytes :=
  if payload.isEmpty then [] else 0x0A :: varint payload.length ++ payload

/-- A variable-length number of at most `limit` bytes. -/
def varint? : (limit : Nat) → Bytes → Option (Nat × Bytes)
  | 0, _ => none
  | _ + 1, [] => none
  | n + 1, b :: rest =>
    if b < 128 then some (b.toNat, rest)
    else (varint? n rest).map fun r => (b.toNat - 128 + 128 * r.1, r.2)

/-- A variable-length number of at most five bytes that stays below a bound. -/
def shortVarint? (bound : Nat) (b : Bytes) : Option (Nat × Bytes) :=
  (varint? 5 b).filter fun r => r.1 < bound

def skip? (n : Nat) (b : Bytes) : Option (Bytes × Bytes) :=
  if (b.take n).length = n then some (b.splitAt n) else none

/-- Groups that may stand inside each other. -/
def depthLimit : Nat := 100

/-- The fields from here on, with the numbers of the groups that are open and the payload so far. -/
def scan? : (fuel : Nat) → (groups : List Nat) → (payload : Bytes) → Bytes → Option Bytes
  | 0, _, _, _ => none
  | _ + 1, groups, payload, [] => if groups.isEmpty then some payload else none
  | n + 1, groups, payload, b => do
    let (tag, rest) ← shortVarint? 0x100000000 b
    let field := tag / 8
    if field = 0 then none
    match tag % 8 with
    | 0 =>
      let (_, rest) ← varint? 10 rest
      scan? n groups payload rest
    | 1 =>
      let (_, rest) ← skip? 8 rest
      scan? n groups payload rest
    | 2 =>
      let (size, rest) ← shortVarint? 0x80000000 rest
      let (content, rest) ← skip? size rest
      scan? n groups (if field = 1 ∧ groups.isEmpty then content else payload) rest
    | 3 => if depthLimit ≤ groups.length then none else scan? n (field :: groups) payload rest
    | 4 =>
      match groups with
      | g :: groups => if g = field then scan? n groups payload rest else none
      | [] => none
    | 5 =>
      let (_, rest) ← skip? 4 rest
      scan? n groups payload rest
    | _ => none

def unwrap? (b : Bytes) : Option Bytes := scan? (b.length + 1) [] [] b

end Signatory.Wire.Frame
