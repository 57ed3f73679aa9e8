import Mathlib.Data.Nat.Cast.Order.Field
import Mathlib.Tactic.NormNum.Pow
import Signatory.Binary64.Decimal
import Signatory.Proofs.Binary64.Rounding

/-! Decimal numerals of doubles. What a numeral is read as depends on its value alone. The shortest numeral of a double
is read as that double: shorter ones are tried before they are taken, and the nearest one of seventeen digits is close
enough. -/

namespace Signatory.Binary64
set_option autoImplicit false

theorem cast_tenTo (n : Nat) : (tenTo n : ℚ) = 10 ^ n := Nat.cast_pow 10 n

theorem hasPlaces_digits {n : Nat} (hn : n ≠ 0) : HasPlaces 10 (Nat.toDigits 10 n).length n := by
  have hlength : 0 < (Nat.toDigits 10 n).length := List.length_pos_iff.mpr Nat.toDigits_ne_nil
  obtain ⟨k, hk⟩ : ∃ k, (Nat.toDigits 10 n).length = k + 1 := ⟨_, (Nat.succ_pred_eq_of_pos hlength).symm⟩
  have hhigh : n < 10 ^ (k + 1) := (Nat.length_toDigits_le_iff (by decide) (by omega)).mp hk.le
  have hlow : 10 ^ k ≤ n := by
    by_contra hless
    cases k with
    | zero => omega
    | succ k =>
      have := (Nat.length_toDigits_le_iff (b := 10) (by decide) (Nat.succ_pos k)).mpr (not_le.mp hless)
      omega
  rw [hk]
  constructor
  · rw [Nat.cast_succ, add_sub_cancel_right, zpow_natCast]
    exact_mod_cast hlow
  · rw [zpow_natCast]
    exact_mod_cast hhigh

/-- The places of a numeral are those of its digits, moved by its exponent. -/
theorem hasPlaces_numeral {n : Nat} (hn : n ≠ 0) (e : Int) :
    HasPlaces 10 ((Nat.toDigits 10 n).length + e) (n * 10 ^ e) := by
  obtain ⟨hlow, hhigh⟩ := hasPlaces_digits hn
  have hten : (0 : ℚ) < 10 ^ e := zpow_pos (by norm_num) e
  constructor
  · rw [show ((Nat.toDigits 10 n).length : Int) + e - 1 = (Nat.toDigits 10 n).length - 1 + e by ring,
      zpow_add₀ (by norm_num)]
    exact mul_le_mul_of_nonneg_right hlow hten.le
  · rw [zpow_add₀ (by norm_num)]
    exact mul_lt_mul_of_pos_right hhigh hten

theorem ofDecimal_zero (negative : Bool) (e : Int) : ofDecimal negative 0 e = ofRatio negative 0 1 := by
  simp only [ofDecimal, if_true]

/-- A numeral as a ratio. -/
def numeralRatio (n : Nat) : Int → Nat × Nat
  | .ofNat k => (n * tenTo k, 1)
  | .negSucc k => (n, tenTo (k + 1))

theorem numeralRatio_value (n : Nat) (e : Int) : ((numeralRatio n e).1 / (numeralRatio n e).2 : ℚ) = n * 10 ^ e := by
  cases e with
  | ofNat k =>
    simp only [numeralRatio, Nat.cast_mul, cast_tenTo, Int.ofNat_eq_natCast, zpow_natCast]
    rw [Nat.cast_one, div_one]
  | negSucc k =>
    simp only [numeralRatio, cast_tenTo, zpow_negSucc]
    rw [div_eq_mul_inv]

theorem numeralRatio_ne_zero (n : Nat) (e : Int) : (numeralRatio n e).2 ≠ 0 := by
  cases e with
  | ofNat k => exact one_ne_zero
  | negSucc k => exact (Nat.pow_pos (by decide)).ne'

theorem ofDecimal_eq {n : Nat} {e k : Int} (hn : n ≠ 0) (hk : HasPlaces 10 k (n * 10 ^ e)) (negative : Bool) :
    ofDecimal negative n e =
      if 400 < k then infinity negative
      else if k < -400 then ofRatio negative 0 1
      else ofRatio negative (numeralRatio n e).1 (numeralRatio n e).2 := by
  obtain rfl := (hasPlaces_numeral hn e).unique (by norm_num) hk
  unfold ofDecimal
  simp only [hn, if_false]
  cases e <;> rfl

/-- Numerals of one value are read as one double. -/
theorem ofDecimal_congr {n n' : Nat} {e e' : Int} (hn : n ≠ 0) (h : (n * 10 ^ e : ℚ) = n' * 10 ^ e')
    (negative : Bool) : ofDecimal negative n e = ofDecimal negative n' e' := by
  have hn' : n' ≠ 0 := by
    rintro rfl
    have hten : (10 : ℚ) ^ e ≠ 0 := zpow_ne_zero e (by norm_num)
    rw [Nat.cast_zero, zero_mul, mul_eq_zero, Nat.cast_eq_zero] at h
    exact h.elim hn hten
  have hplaces := hasPlaces_numeral hn e
  rw [ofDecimal_eq hn hplaces, ofDecimal_eq hn' (h ▸ hplaces)]
  rw [ofRatio_congr (numeralRatio_ne_zero n e) (numeralRatio_ne_zero n' e')
    ((numeralRatio_value n e).trans (h.trans (numeralRatio_value n' e').symm))]

/-- The digits of a ratio do not begin before its point place. -/
theorem pow_pointPlace_le {num den : Nat} (h : (0 : ℚ) < num / den) :
    (10 : ℚ) ^ (pointPlace num den - 1) ≤ num / den := by
  obtain ⟨hnum, hden⟩ := parts_ne_zero h
  have hn : (0 : ℚ) < num := by exact_mod_cast Nat.pos_of_ne_zero hnum
  have hd : (0 : ℚ) < den := by exact_mod_cast Nat.pos_of_ne_zero hden
  unfold pointPlace
  split
  · rename_i hle
    have hwhole : num / den ≠ 0 := (Nat.div_pos hle (Nat.pos_of_ne_zero hden)).ne'
    exact (hasPlaces_digits hwhole).1.trans Nat.cast_div_le
  · rename_i hlt
    have hwhole : den / num ≠ 0 := (Nat.div_pos (not_le.mp hlt).le (Nat.pos_of_ne_zero hnum)).ne'
    have hhigh := (hasPlaces_digits hwhole).2
    have hlength : 0 < (Nat.toDigits 10 (den / num)).length := List.length_pos_iff.mpr Nat.toDigits_ne_nil
    generalize (Nat.toDigits 10 (den / num)).length = k at *
    dsimp only
    split
    · have hfloor : den < num * 10 ^ k := by
        have hwhole_lt : den / num < 10 ^ k := by exact_mod_cast hhigh
        rw [Nat.div_lt_iff_lt_mul (Nat.pos_of_ne_zero hnum)] at hwhole_lt
        rwa [Nat.mul_comm]
      have hfloor' : (den : ℚ) ≤ num * 10 ^ k := by exact_mod_cast hfloor.le
      rw [show (1 : Int) - k - 1 = -(k : Int) by ring, zpow_neg, zpow_natCast, le_div_iff₀ hd, inv_mul_le_iff₀ (by positivity),
        mul_comm]
      exact hfloor'
    · rename_i hexact
      obtain ⟨j, rfl⟩ : ∃ j, k = j + 1 := ⟨k - 1, by omega⟩
      have hfloor : (den : ℚ) ≤ num * 10 ^ j := by exact_mod_cast not_lt.mp hexact
      rw [show (2 : Int) - (j + 1 : Nat) - 1 = -(j : Int) by push_cast; ring, zpow_neg, zpow_natCast, le_div_iff₀ hd,
        inv_mul_le_iff₀ (by positivity), mul_comm]
      exact hfloor

/-- The nearer neighbour on a grid is at most half a mesh away. -/
theorem abs_gridNeighbours_sub_le (num : Nat) {den : Nat} (hden : den ≠ 0) (e : Int) :
    |((gridNeighbours num den e).1 * 10 ^ e : ℚ) - num / den| ≤ 10 ^ e / 2 := by
  have hten : (0 : ℚ) < 10 ^ e := zpow_pos (by norm_num) e
  obtain ⟨n, d, hd, hratio, hfirst⟩ : ∃ n d : Nat, d ≠ 0 ∧ (n / d * 10 ^ e : ℚ) = num / den ∧
      (gridNeighbours num den e).1 = roundDiv n d := by
    have hnear (n d : Nat) : (if roundDiv n d = n / d then (n / d, n / d + 1) else (n / d + 1, n / d)).1 = roundDiv n d := by
      rcases roundDiv_cases n d with ⟨hround, _⟩ | ⟨hround, _⟩ <;> rw [hround] <;> simp
    cases e with
    | ofNat k =>
      refine ⟨num, den * tenTo k, Nat.mul_ne_zero hden (Nat.pow_pos (by decide)).ne', ?_, hnear _ _⟩
      rw [Nat.cast_mul, cast_tenTo, Int.ofNat_eq_natCast, zpow_natCast]
      field_simp
    | negSucc k =>
      refine ⟨num * tenTo (k + 1), den, hden, ?_, hnear _ _⟩
      rw [Nat.cast_mul, cast_tenTo, zpow_negSucc]
      field_simp
  rw [hfirst, ← hratio, ← sub_mul, abs_mul, abs_of_pos hten]
  calc |(roundDiv n d : ℚ) - n / d| * 10 ^ e ≤ 1 / 2 * 10 ^ e :=
        mul_le_mul_of_nonneg_right (abs_roundDiv_sub_le n hd) hten.le
    _ = 10 ^ e / 2 := by ring

/-- Whatever numeral is found, it is read as the number, if the longest one is. -/
theorem shortestFrom_reads {x : Binary64} {negative : Bool} {num den : Nat} {place : Int}
    (attempts digits : Nat)
    (hlongest : ofDecimal negative (gridNeighbours num den (place - (digits + attempts : Nat))).1
      (place - (digits + attempts : Nat)) = x) :
    ofDecimal negative (shortestFrom x negative num den place attempts digits).1
      (shortestFrom x negative num den place attempts digits).2 = x := by
  induction attempts generalizing digits with
  | zero => exact hlongest
  | succ attempts ih =>
    rw [shortestFrom]
    dsimp only
    split
    · assumption
    split
    · assumption
    · apply ih
      rwa [Nat.add_right_comm, Nat.add_assoc]

theorem dropZeros_value (fuel : Nat) {n : Nat} (hn : n ≠ 0) (e : Int) :
    (dropZeros fuel n e).1 ≠ 0 ∧ ((dropZeros fuel n e).1 * 10 ^ (dropZeros fuel n e).2 : ℚ) = n * 10 ^ e := by
  induction fuel generalizing n e with
  | zero => exact ⟨hn, rfl⟩
  | succ fuel ih =>
    rw [dropZeros]
    split
    · rename_i hzero
      have hten : n = 10 * (n / 10) := (Nat.mul_div_cancel' (Nat.dvd_of_mod_eq_zero hzero)).symm
      obtain ⟨hne, hvalue⟩ := ih (n := n / 10) (by omega) (e + 1)
      refine ⟨hne, hvalue.trans ?_⟩
      have hcast : (n : ℚ) = 10 * (n / 10 : Nat) := by exact_mod_cast hten
      rw [hcast, zpow_add_one₀ (by norm_num)]
      ring
    · exact ⟨hn, rfl⟩

theorem two_pow_le {k : Nat} (hk : k ≤ 1200) : (2 : ℚ) ^ k ≤ 10 ^ 400 := by
  calc (2 : ℚ) ^ k ≤ 2 ^ (3 * 400) := pow_le_pow_right₀ one_le_two hk
    _ = (2 ^ 3) ^ 400 := pow_mul 2 3 400
    _ ≤ 10 ^ 400 := pow_le_pow_left₀ (by norm_num) (by norm_num) 400

/-- Within the range of the doubles a numeral is rounded. -/
theorem ofDecimal_eq_ofRatio {n : Nat} {e : Int} (hn : n ≠ 0) (hlow : (2 : ℚ) ^ (-1200 : Int) ≤ n * 10 ^ e)
    (hhigh : (n * 10 ^ e : ℚ) < 2 ^ (1200 : Int)) (negative : Bool) :
    ofDecimal negative n e = ofRatio negative (numeralRatio n e).1 (numeralRatio n e).2 := by
  have hpower : (2 : ℚ) ^ (1200 : Int) ≤ 10 ^ (400 : Int) := by exact_mod_cast two_pow_le le_rfl
  have hinverse : (10 : ℚ) ^ (-400 : Int) ≤ 2 ^ (-1200 : Int) := by
    rw [zpow_neg, zpow_neg, inv_le_inv₀ (zpow_pos (by norm_num) _) (zpow_pos two_pos _)]
    exact hpower
  have hplaces := hasPlaces_numeral hn e
  have hmost := hplaces.le_of_lt (by norm_num) (hhigh.trans_le hpower)
  have hbelow : (10 : ℚ) ^ (-400 + 1 - 1 : Int) ≤ n * 10 ^ e := by
    rw [add_sub_cancel_right]
    exact hinverse.trans hlow
  have hleast := hplaces.le_of_le (by norm_num) hbelow
  rw [ofDecimal_eq hn hplaces, if_neg (by omega), if_neg (by omega)]

/-- Seventeen digits are enough: half a mesh of theirs is less than what separates doubles. -/
theorem ofDecimal_seventeen {x : Binary64} {negative : Bool} {m num den : Nat} {q : Int}
    (h : x.value = .finite negative m q) (hm : 0 < m) (hratio : (num / den : ℚ) = m * 2 ^ q) :
    ofDecimal negative (gridNeighbours num den (pointPlace num den - 17)).1 (pointPlace num den - 17) = x := by
  have hpos : (0 : ℚ) < num / den := by
    rw [hratio]
    exact mul_pos (by exact_mod_cast hm) (zpow_pos two_pos q)
  obtain ⟨_, hden⟩ := parts_ne_zero hpos
  have hten : (0 : ℚ) < 10 ^ (pointPlace num den - 17) := zpow_pos (by norm_num) _
  have hmesh : (10 : ℚ) ^ 16 * 10 ^ (pointPlace num den - 17) ≤ m * 2 ^ q := by
    rw [← hratio, ← zpow_natCast, ← zpow_add₀ (by norm_num)]
    convert pow_pointPlace_le hpos using 2
    push_cast
    ring
  have hnear := abs_gridNeighbours_sub_le num hden (pointPlace num den - 17)
  rw [hratio] at hnear
  generalize (gridNeighbours num den (pointPlace num den - 17)).1 = n at *
  generalize pointPlace num den - 17 = e at *
  obtain ⟨hbelow, habove⟩ := abs_le.mp hnear
  obtain ⟨hsmall, hlarge⟩ := bounds_of_value h hm
  have hn : n ≠ 0 := by
    rintro rfl
    rw [Nat.cast_zero, zero_mul] at hbelow
    linarith
  have hlow : (2 : ℚ) ^ (-1200 : Int) ≤ n * 10 ^ e := by
    calc (2 : ℚ) ^ (-1200 : Int) ≤ 2 ^ (-1074 - 1 : Int) := zpow_le_zpow_right₀ one_le_two (by decide)
      _ = 2 ^ (-1074 : Int) / 2 := by rw [zpow_sub_one₀ two_ne_zero, div_eq_mul_inv]
      _ ≤ n * 10 ^ e := by linarith
  have hhigh : (n * 10 ^ e : ℚ) < 2 ^ (1200 : Int) := by
    calc (n * 10 ^ e : ℚ) ≤ m * 2 ^ q * 2 := by linarith
      _ < 2 ^ (1025 : Int) * 2 := mul_lt_mul_of_pos_right hlarge two_pos
      _ = 2 ^ (1025 + 1 : Int) := (zpow_add_one₀ two_ne_zero _).symm
      _ ≤ 2 ^ (1200 : Int) := zpow_le_zpow_right₀ one_le_two (by decide)
  rw [ofDecimal_eq_ofRatio hn hlow hhigh]
  refine ofRatio_eq h hm ?_
  rw [numeralRatio_value]
  calc |(n * 10 ^ e - m * 2 ^ q : ℚ)| ≤ 10 ^ e / 2 := hnear
    _ ≤ m * 2 ^ q / (2 * 10 ^ 16) := by rw [div_le_div_iff₀ two_pos (by norm_num)]; linarith
    _ < m * 2 ^ q / 2 ^ 54 := div_lt_div_of_pos_left (by linarith) (by norm_num) (by norm_num)

theorem shortest_reads {x : Binary64} {negative : Bool} {m : Nat} {q : Int} (h : x.value = .finite negative m q)
    (hm : 0 < m) : (shortest x negative m q).1 ≠ 0 ∧
      ofDecimal negative (shortest x negative m q).1 (shortest x negative m q).2 = x := by
  have hratio : ((scaledRatio m 1 q).1 / (scaledRatio m 1 q).2 : ℚ) = m * 2 ^ q := by
    rw [scaledRatio_value, Nat.cast_one, div_one]
  have hreads := shortestFrom_reads 16 1 (ofDecimal_seventeen h hm hratio)
  unfold shortest
  dsimp only
  generalize shortestFrom x negative (scaledRatio m 1 q).1 (scaledRatio m 1 q).2
    (pointPlace (scaledRatio m 1 q).1 (scaledRatio m 1 q).2) 16 1 = numeral at *
  have hn : numeral.1 ≠ 0 := by
    intro hzero
    have hvalue : (ofRatio negative 0 1).value = .finite negative 0 (-1074) := by cases negative <;> rfl
    rw [hzero, ofDecimal_zero] at hreads
    rw [hreads, h, BinaryValue.finite.injEq] at hvalue
    omega
  obtain ⟨hne, hvalue⟩ := dropZeros_value 20 hn numeral.2
  exact ⟨hne, (ofDecimal_congr hne hvalue negative).trans hreads⟩

end Signatory.Binary64
