import Mathlib.Algebra.Order.Field.Rat
import Mathlib.Algebra.Order.Field.Power
import Mathlib.Tactic.Ring
import Signatory.Cbor.Basic

/-! Numbers by the rationals that they are: numbers of either kind are equal as these are. -/

namespace Signatory
set_option autoImplicit false

namespace BinaryValue

/-- The rational that a finite value is. -/
def rat? : BinaryValue → Option ℚ
  | finite negative m q => some (signed negative m * 2 ^ q)
  | _ => none

theorem scaled_mul (i : Int) {p r : Int} (h : r ≤ p) :
    ((i * twoTo (p - r).toNat : Int) : ℚ) * 2 ^ r = i * 2 ^ p := by
  have hpow : (2 : ℚ) ^ (p - r).toNat * 2 ^ r = 2 ^ p := by
    rw [← zpow_natCast, Int.toNat_of_nonneg (by omega), ← zpow_add₀ (by norm_num), Int.sub_add_cancel]
  have hcast : ((twoTo (p - r).toNat : Nat) : ℚ) = 2 ^ (p - r).toNat := Nat.cast_pow 2 _
  push_cast
  rw [hcast, mul_assoc, hpow]

theorem lt_finite_iff {s t : Bool} {m n : Nat} {p q : Int} : lt (finite s m p) (finite t n q) = true ↔
    (signed s m : ℚ) * 2 ^ p < signed t n * 2 ^ q := by
  have hpos : (0 : ℚ) < 2 ^ min p q := zpow_pos (by norm_num) _
  rw [← scaled_mul _ (Int.min_le_left p q), ← scaled_mul _ (Int.min_le_right p q), mul_lt_mul_iff_left₀ hpos,
    Int.cast_lt]
  simp only [lt, decide_eq_true_eq]

/-- Values that are no numbers are equal to no number. -/
theorem numEq_of_rat? {v w : BinaryValue} {x : ℚ} (h : v.rat? = some x) : numEq v w = true ↔ w.rat? = some x := by
  cases v with
  | finite s m p =>
    cases w with
    | finite t n q =>
      obtain rfl := Option.some.inj h
      simp only [numEq, rat?, Bool.and_eq_true, Bool.not_eq_true', ← Bool.not_eq_true, lt_finite_iff, not_lt,
        Option.some.injEq]
      exact le_antisymm_iff.symm
    | _ => simp [numEq, rat?]
  | _ => cases h

@[simp] theorem rat?_ofInt (i : Int) : (ofInt i).rat? = some (i : ℚ) := by
  have hsigned : signed (i < 0) i.natAbs = i := by
    by_cases h : i < 0
    · simp only [signed, h, decide_true, if_true]
      omega
    · simp only [signed, h, decide_false, Bool.false_eq_true, if_false]
      omega
  simp only [rat?, ofInt, hsigned, zpow_zero, mul_one]

end BinaryValue

namespace Cbor.Value

theorem alike_of_number? {v w : Value} {m n : Number} (hv : v.number? = some m) (hw : w.number? = some n) :
    (v == w) = (m == n) := by
  cases v <;> cases hv <;> cases w <;> cases hw <;> rfl

/-- An item is equal to an integer when it is a number of that value. -/
theorem int_alike_iff {i : Int} {v : Value} :
    (.int i == v) = true ↔ ∃ n, v.number? = some n ∧ n.value.rat? = some (i : ℚ) := by
  have hvalue : ∀ n : Number, (Number.int i == n) = true ↔ n.value.rat? = some (i : ℚ) :=
    fun n => BinaryValue.numEq_of_rat? (BinaryValue.rat?_ofInt i)
  cases hn : v.number? with
  | some n =>
    have hint : (Value.int i).number? = some (.int i) := rfl
    simp [alike_of_number? hint hn, hvalue]
  | none =>
    have hunlike : (.int i == v) = false := by cases v <;> first | rfl | cases hn
    simp [hunlike]

theorem alike_of_int_alike {i j : Int} {v w : Value} (hv : (.int i == v) = true) (hw : (.int j == w) = true) :
    (v == w) = true ↔ i = j := by
  obtain ⟨m, hm, hi⟩ := int_alike_iff.mp hv
  obtain ⟨n, hn, hj⟩ := int_alike_iff.mp hw
  have hnum : (m == n) = true ↔ n.value.rat? = some (i : ℚ) := BinaryValue.numEq_of_rat? hi
  rw [alike_of_number? hm hn, hnum, hj, Option.some.injEq, Int.cast_inj, eq_comm]

end Cbor.Value

end Signatory
