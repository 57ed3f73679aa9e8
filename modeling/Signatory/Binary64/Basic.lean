/-! Binary floating-point numbers as bit patterns, in the three interchange widths. A value is a sign,
a mantissa and a power of two in exact integers; rounding goes to the nearest pattern, a tie to the
even one. -/

namespace Signatory
set_option autoImplicit false

abbrev twoTo (n : Nat) : Nat := Nat.pow 2 n

/-- What a bit pattern denotes: `finite negative m q` is `m * 2 ^ q` with its sign. -/
inductive BinaryValue where
  | nan
  | infinite (negative : Bool)
  | finite (negative : Bool) (mantissa : Nat) (exponent : Int)
  deriving DecidableEq, Repr

namespace BinaryValue

def signed (negative : Bool) (n : Nat) : Int := if negative then -n else n

def ofInt (i : Int) : BinaryValue := finite (i < 0) i.natAbs 0

/-- Whether one value is less than another; never so for what is no number. -/
def lt : BinaryValue → BinaryValue → Bool
  | nan, _ | _, nan => false
  | infinite a, infinite b => a && !b
  | infinite a, finite .. => a
  | finite .., infinite b => !b
  | finite s m p, finite t n q =>
    let r := min p q
    signed s m * twoTo (p - r).toNat < signed t n * twoTo (q - r).toNat

/-- Equality as numbers: the two zeros are equal, what is no number equals nothing. -/
def numEq : BinaryValue → BinaryValue → Bool
  | nan, _ | _, nan => false
  | finite s m p, finite t n q => !lt (finite s m p) (finite t n q) && !lt (finite t n q) (finite s m p)
  | v, w => v == w

/-- The integer part of a finite value, toward zero. -/
def truncate? : BinaryValue → Option Int
  | finite negative m (.ofNat k) => some (signed negative (m * twoTo k))
  | finite negative m (.negSucc k) => some (signed negative (m / twoTo (k + 1)))
  | _ => none

end BinaryValue

/-- An interchange format: one sign bit, then the exponent field, then the fraction field. -/
structure BinaryFormat where
  exponentBits : Nat
  fractionBits : Nat

namespace BinaryFormat

def half : BinaryFormat := ⟨5, 10⟩

def single : BinaryFormat := ⟨8, 23⟩

def double : BinaryFormat := ⟨11, 52⟩

variable (F : BinaryFormat)

def leastExponent : Int := 2 - twoTo (F.exponentBits - 1) - F.fractionBits

def infinity : Nat := (twoTo F.exponentBits - 1) * twoTo F.fractionBits

def signBit : Nat := twoTo (F.exponentBits + F.fractionBits)

/-- The one pattern that stands for all that is no number. -/
def quietNaN : Nat := F.infinity + twoTo (F.fractionBits - 1)

def value (bits : Nat) : BinaryValue :=
  let negative := F.signBit ≤ bits
  let magnitude := bits % F.signBit
  let field := magnitude / twoTo F.fractionBits
  let fraction := magnitude % twoTo F.fractionBits
  if magnitude = F.infinity then .infinite negative
  else if F.infinity < magnitude then .nan
  else if field = 0 then .finite negative fraction F.leastExponent
  else .finite negative (twoTo F.fractionBits + fraction) (F.leastExponent + (field - 1 : Nat))

end BinaryFormat

/-- The quotient rounded to the nearest integer, a tie to the even one. -/
def roundDiv (num den : Nat) : Nat :=
  let q := num / den
  let r := num % den
  if 2 * r < den then q
  else if den < 2 * r then q + 1
  else if q % 2 = 0 then q
  else q + 1

/-- `num / den * 2 ^ shift` as a fraction of natural numbers. -/
def scaledRatio (num den : Nat) (shift : Int) : Nat × Nat :=
  match shift with
  | .ofNat k => (num * twoTo k, den)
  | .negSucc k => (num, den * twoTo (k + 1))

namespace BinaryFormat

variable (F : BinaryFormat)

/-- The exponent of the last place near a positive ratio: the rounded mantissa fills the fraction
field and its hidden bit, unless the number is among the least. -/
def lastPlace (num den : Nat) : Int :=
  let estimate : Int := (num.log2 : Int) - den.log2 - F.fractionBits
  let (n, d) := scaledRatio num den (-estimate)
  let exact := if n < d * twoTo F.fractionBits then estimate - 1 else estimate
  max exact F.leastExponent

def ofRatio (negative : Bool) (num den : Nat) : Nat :=
  let magnitude :=
    if num = 0 then 0
    else
      let q := F.lastPlace num den
      let (n, d) := scaledRatio num den (-q)
      min ((q - F.leastExponent).toNat * twoTo F.fractionBits + roundDiv n d) F.infinity
  if negative then F.signBit + magnitude else magnitude

def ofValue : BinaryValue → Nat
  | .nan => F.quietNaN
  | .infinite negative => if negative then F.signBit + F.infinity else F.infinity
  | .finite negative m q =>
    let (n, d) := scaledRatio m 1 q
    F.ofRatio negative n d

end BinaryFormat

/-- A double. All patterns that are no number are one, the quiet one. -/
structure Binary64 where
  bits : UInt64
  nan_unique : BinaryFormat.double.value bits.toNat = .nan → bits = 0x7FF8000000000000
  deriving DecidableEq

namespace Binary64

def nan : Binary64 := ⟨0x7FF8000000000000, fun _ => rfl⟩

def ofBits (bits : UInt64) : Binary64 :=
  if h : BinaryFormat.double.value bits.toNat = .nan then nan else ⟨bits, fun h' => absurd h' h⟩

def value (x : Binary64) : BinaryValue := BinaryFormat.double.value x.bits.toNat

def ofValue (v : BinaryValue) : Binary64 := ofBits (UInt64.ofNat (BinaryFormat.double.ofValue v))

def ofRatio (negative : Bool) (num den : Nat) : Binary64 :=
  ofBits (UInt64.ofNat (BinaryFormat.double.ofRatio negative num den))

def infinity (negative : Bool) : Binary64 := ofValue (.infinite negative)

def ofInt (i : Int) : Binary64 := ofRatio (i < 0) i.natAbs 1

def zero : Binary64 := ofInt 0

instance : Inhabited Binary64 := ⟨zero⟩

def isNaN (x : Binary64) : Bool := x.value == .nan

def isZero (x : Binary64) : Bool :=
  match x.value with
  | .finite _ m _ => m == 0
  | _ => false

def exactSum (a b : Int × Int) : Int × Int :=
  let q := min a.2 b.2
  (a.1 * twoTo (a.2 - q).toNat + b.1 * twoTo (b.2 - q).toNat, q)

/-- The sum rounded once. A sum of zero is positive, unless both terms are the negative zero. -/
def add (x y : Binary64) : Binary64 :=
  match x.value, y.value with
  | .nan, _ | _, .nan => nan
  | .infinite a, .infinite b => if a = b then x else nan
  | .infinite _, _ => x
  | _, .infinite _ => y
  | .finite s m p, .finite t n q =>
    let (sum, r) := exactSum (BinaryValue.signed s m, p) (BinaryValue.signed t n, q)
    if sum = 0 then ofValue (.finite (s && t && m == 0 && n == 0) 0 0)
    else ofValue (.finite (sum < 0) sum.natAbs r)

def neg (x : Binary64) : Binary64 :=
  match x.value with
  | .nan => nan
  | .infinite s => ofValue (.infinite !s)
  | .finite s m q => ofValue (.finite (!s) m q)

def sub (x y : Binary64) : Binary64 := x.add y.neg

end Binary64

end Signatory
