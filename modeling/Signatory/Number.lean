import Signatory.Binary64.Decimal

/-! Numbers that keep the kind they were given in, an integer or a double. Arithmetic stays exact between
integers and is that of doubles otherwise; comparison is always by exact value. -/

namespace Signatory
set_option autoImplicit false

inductive Number where
  | int (i : Int)
  | float (x : Binary64)
  deriving DecidableEq

namespace Number

instance : Inhabited Number := ⟨int 0⟩

instance : Coe Binary64 Number := ⟨float⟩

def value : Number → BinaryValue
  | int i => .ofInt i
  | float x => x.value

def toBinary64 : Number → Binary64
  | int i => .ofInt i
  | float x => x

/-- The nearest double; an integer beyond all doubles has none. -/
def toBinary64? : Number → Option Binary64
  | int i =>
    match (Binary64.ofInt i).value with
    | .infinite _ => none
    | _ => some (.ofInt i)
  | float x => some x

def add : Number → Number → Number
  | int i, int j => int (i + j)
  | a, b => float (a.toBinary64.add b.toBinary64)

/-- The sum, if both terms have the kind that it is computed in. -/
def add? : Number → Number → Option Number
  | int i, int j => some (int (i + j))
  | a, b => do return float ((← a.toBinary64?).add (← b.toBinary64?))

def sub? : Number → Number → Option Number
  | int i, int j => some (int (i - j))
  | a, b => do return float ((← a.toBinary64?).sub (← b.toBinary64?))

instance : Add Number := ⟨add⟩

instance : OfNat Number 0 := ⟨int 0⟩

instance : LT Number := ⟨fun a b => a.value.lt b.value = true⟩

instance : DecidableRel (α := Number) (· < ·) := fun a b => inferInstanceAs (Decidable (a.value.lt b.value = true))

/-- Equality of values, whatever the kinds. -/
def numEq (a b : Number) : Bool := a.value.numEq b.value

instance : BEq Number := ⟨numEq⟩

instance : LE Number := ⟨fun a b => (a.value.lt b.value || a.numEq b) = true⟩

instance : DecidableRel (α := Number) (· ≤ ·) := fun a b =>
  inferInstanceAs (Decidable ((a.value.lt b.value || a.numEq b) = true))

def isZero (a : Number) : Bool := a.numEq (int 0)

def render : Number → Text
  | int i => Text.ofInt i
  | float x => x.render

end Number

end Signatory
