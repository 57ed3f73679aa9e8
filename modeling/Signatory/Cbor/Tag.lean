import Signatory.Cbor.Basic
import Signatory.Text.Calendar

/-! Registered tags. Each says what the items of one kind stand for that it marks; an item of another kind it may not
mark. Other tags mark anything. Numbers that are marked are exact. -/

namespace Signatory.Cbor
set_option autoImplicit false

/-- What a tagged item stands for. -/
inductive Meaning where
  | instant
  | date
  | decimal
  | ratio
  | complex
  | pattern
  | mail
  | uuid
  | set
  | address (bytes : Nat)
  | network (bytes : Nat)
  | unregistered
  deriving DecidableEq, Repr

namespace Meaning

def pair? : Value → Option (Value × Value)
  | .list [a, b] | .tuple [a, b] => some (a, b)
  | _ => none

def integer? (v : Value) : Option Int :=
  match v.number? with
  | some (.int i) => some i
  | _ => none

def integers? (v : Value) : Option (Int × Int) := do
  let (a, b) ← pair? v
  return (← integer? a, ← integer? b)

def ofSeconds (v : Value) : Option Meaning := do
  let seconds ← v.number?
  if seconds < .int (-62135596800) then none
  else if seconds < .int 253402300800 then some instant
  else none

def ofDays (v : Value) : Option Meaning := do
  let days ← integer? v
  if -719162 ≤ days ∧ days ≤ 2932896 then some date else none

def ofText (valid : Text → Bool) (meaning : Meaning) : Value → Option Meaning
  | .text s => if valid s then some meaning else none
  | _ => none

/-- A pair of integers, the second of which is none of some. -/
def ofIntegers (meaning : Meaning) (refused : List Int) (v : Value) : Option Meaning := do
  if refused.contains (← integers? v).2 then none else some meaning

def ofNumbers (v : Value) : Option Meaning := do
  let (a, b) ← pair? v
  let _ ← a.number?
  let _ ← b.number?
  return complex

def ofList : Value → Option Meaning
  | .list _ | .tuple _ => some set
  | _ => none

def ofAddress : Value → Option Meaning
  | .bytes b =>
    if b.length = 4 ∨ b.length = 16 then some (address b.length)
    else if b.length = 6 then some unregistered
    else none
  | _ => none

def ofNetwork : Value → Option Meaning
  | .map [(.bytes b, .int bits)] =>
    if (b.length = 4 ∨ b.length = 16) ∧ 0 ≤ bits ∧ bits ≤ 8 * b.length then some (network b.length) else none
  | _ => none

/-- What an item stands for under a tag, if the tag may mark it. A reference stands for nothing, for nothing is kept
that it could refer to. -/
def of? (tag : Nat) (item : Value) : Option Meaning :=
  if tag = 25 ∨ tag = 29 then none
  else if tag = 0 then ofText Text.Calendar.isInstant instant item
  else if tag = 1 then ofSeconds item
  else if tag = 4 ∨ tag = 5 then ofIntegers decimal [] item
  else if tag = 30 then ofIntegers ratio [0] item
  else if tag = 35 then ofText (fun _ => true) pattern item
  else if tag = 36 then ofText (fun _ => true) mail item
  else if tag = 37 then match item with
    | .bytes b => if b.length = 16 then some uuid else none
    | _ => none
  else if tag = 100 then ofDays item
  else if tag = 258 then ofList item
  else if tag = 260 then ofAddress item
  else if tag = 261 then ofNetwork item
  else if tag = 1004 then ofText Text.Calendar.isDate date item
  else if tag = 43000 then ofNumbers item
  else some unregistered

/-- A number times a power of a base, cut toward zero. -/
def cutScaled (base : Nat) (exponent m : Int) : Int :=
  if 0 ≤ exponent then m * Nat.pow base exponent.toNat else m.tdiv (Nat.pow base (-exponent).toNat)

/-- The addresses of a network, which begin alike in so many bits. -/
def addresses (b : Bytes) (bits : Int) : List Value :=
  let count := Nat.pow 2 (8 * b.length - bits.toNat)
  let first := b.toNat / count * count
  (List.range count).map fun i => .tagged 260 (.bytes (Bytes.ofNat b.length (first + i)))

end Meaning

namespace Value

/-- The integer that a marked item stands for: a decimal or a ratio cut toward zero, or the number that the bytes of a
unique identifier or of an address are. -/
def markedInt? (item : Value) (tag : Nat) : Option Int := do
  match ← Meaning.of? tag item, item with
  | .decimal, v => do
    let (exponent, m) ← Meaning.integers? v
    return Meaning.cutScaled (if tag = 4 then 10 else 2) exponent m
  | .ratio, v => do
    let (numerator, denominator) ← Meaning.integers? v
    return numerator.tdiv denominator
  | .uuid, .bytes b | .address _, .bytes b => return b.toNat
  | _, _ => none

/-- Whether a marked item counts as true: all but numbers that are zero and sets that are empty. -/
def isMarkedTrue (item : Value) (tag : Nat) : Bool :=
  match Meaning.of? tag item, item with
  | some .decimal, v => (Meaning.integers? v).any fun p => p.2 ≠ 0
  | some .ratio, v => (Meaning.integers? v).any fun p => p.1 ≠ 0
  | some .complex, v => (Meaning.pair? v).any fun p => !((p.1.number?.any (·.isZero)) && p.2.number?.any (·.isZero))
  | some .set, .list items | some .set, .tuple items => !items.isEmpty
  | _, _ => true

/-- The items that a marked item is made of: the members of a set, each once, or the addresses of a network. In which
order a set is gone through is not said; here it is that of arrival. -/
def markedItems? (item : Value) (tag : Nat) : Option (List Value) := do
  match ← Meaning.of? tag item, item with
  | .set, .list items | .set, .tuple items => return items.eraseDups
  | .network _, .map [(.bytes b, .int bits)] => return Meaning.addresses b bits
  | _, _ => none

end Value

end Signatory.Cbor
