import Mathlib.Algebra.Order.Field.Basic
import Mathlib.Algebra.Order.Field.Power
import Mathlib.Algebra.Order.Ring.Rat
import Mathlib.Tactic.FieldSimp
import Mathlib.Tactic.Linarith
import Mathlib.Tactic.Ring
import Signatory.Binary64.Basic

/-! Rounding in rational numbers. The pattern that a ratio rounds to depends on its value alone, and a ratio that is
close enough to a finite number of the format rounds to the pattern of that number. -/

namespace Signatory
set_option autoImplicit false

theorem cast_twoTo (n : Nat) : (twoTo n : ℚ) = 2 ^ n := Nat.cast_pow 2 n

theorem scaledRatio_value (num den : Nat) (shift : Int) :
    ((scaledRatio num den shift).1 / (scaledRatio num den shift).2 : ℚ) = num / den * 2 ^ shift := by
  cases shift with
  | ofNat k =>
    simp only [scaledRatio, Nat.cast_mul, cast_twoTo, Int.ofNat_eq_natCast, zpow_natCast]
    ring
  | negSucc k =>
    simp only [scaledRatio, Nat.cast_mul, cast_twoTo, zpow_negSucc]
    ring

theorem scaledRatio_ne_zero {num den : Nat} (hden : den ≠ 0) (shift : Int) : (scaledRatio num den shift).2 ≠ 0 := by
  cases shift with
  | ofNat k => exact hden
  | negSucc k => exact Nat.mul_ne_zero hden (Nat.pow_pos (by decide)).ne'

theorem roundDiv_cases (n : Nat) (d : Nat) :
    roundDiv n d = n / d ∧ 2 * (n % d) ≤ d ∨ roundDiv n d = n / d + 1 ∧ d ≤ 2 * (n % d) := by
  unfold roundDiv
  dsimp only
  split
  · exact .inl ⟨rfl, by omega⟩
  split
  · exact .inr ⟨rfl, by omega⟩
  split
  · exact .inl ⟨rfl, by omega⟩
  · exact .inr ⟨rfl, by omega⟩

/-- Rounding moves a ratio by a half at most. -/
theorem abs_roundDiv_sub_le (n : Nat) {d : Nat} (hd : d ≠ 0) : |(roundDiv n d : ℚ) - n / d| ≤ 1 / 2 := by
  have hpos : (0 : ℚ) < d := by exact_mod_cast Nat.pos_of_ne_zero hd
  have hsplit : (n : ℚ) / d = (n / d : Nat) + (n % d : Nat) / d := by
    have hdivmod : (n : ℚ) = d * (n / d : Nat) + (n % d : Nat) := by exact_mod_cast (Nat.div_add_mod n d).symm
    rw [div_eq_iff hpos.ne', add_mul, div_mul_cancel₀ _ hpos.ne']
    linarith
  have hrest : 0 ≤ ((n % d : Nat) : ℚ) / d := div_nonneg (Nat.cast_nonneg _) hpos.le
  rw [hsplit, abs_le]
  rcases roundDiv_cases n d with ⟨hround, hr⟩ | ⟨hround, hr⟩
  · have hhalf : ((n % d : Nat) : ℚ) / d ≤ 1 / 2 := by
      rw [div_le_div_iff₀ hpos two_pos, one_mul, mul_comm]
      exact_mod_cast hr
    rw [hround]
    constructor <;> linarith
  · have hhalf : 1 / 2 ≤ ((n % d : Nat) : ℚ) / d := by
      rw [div_le_div_iff₀ two_pos hpos, one_mul, mul_comm]
      exact_mod_cast hr
    have hless : ((n % d : Nat) : ℚ) / d ≤ 1 := by
      rw [div_le_one₀ hpos]
      exact_mod_cast (Nat.mod_lt n (Nat.pos_of_ne_zero hd)).le
    rw [hround, Nat.cast_succ]
    constructor <;> linarith

/-- A ratio rounds to the integer that it is less than a half away from. -/
theorem roundDiv_eq {n d k : Nat} (hd : d ≠ 0) (h : |(n / d : ℚ) - k| < 1 / 2) : roundDiv n d = k := by
  have hdistance : |(roundDiv n d : ℚ) - k| < 1 := by
    calc |(roundDiv n d : ℚ) - k| ≤ |(roundDiv n d : ℚ) - n / d| + |(n / d : ℚ) - k| := abs_sub_le _ _ _
      _ < 1 / 2 + 1 / 2 := add_lt_add_of_le_of_lt (abs_roundDiv_sub_le n hd) h
      _ = 1 := by norm_num
  have hinteger : |(roundDiv n d : Int) - k| < 1 := by exact_mod_cast hdistance
  rw [Int.abs_lt_one_iff] at hinteger
  omega

theorem roundDiv_mul {c : Nat} (hc : 0 < c) (n d : Nat) : roundDiv (c * n) (c * d) = roundDiv n d := by
  have hdouble (x y : Nat) : 2 * (c * x) < c * y ↔ 2 * x < y := by
    rw [Nat.mul_left_comm, Nat.mul_lt_mul_left hc]
  have hdouble' (x y : Nat) : c * y < 2 * (c * x) ↔ y < 2 * x := by
    rw [Nat.mul_left_comm, Nat.mul_lt_mul_left hc]
  simp only [roundDiv, Nat.mul_div_mul_left _ _ hc, Nat.mul_mod_mul_left, hdouble, hdouble']

/-- In base `b` the digits of a number begin `k` places before the point. -/
def HasPlaces (b : ℚ) (k : Int) (r : ℚ) : Prop := b ^ (k - 1) ≤ r ∧ r < b ^ k

namespace HasPlaces

variable {b r : ℚ} {k k' : Int}

theorem pos (hb : 0 < b) (h : HasPlaces b k r) : 0 < r := (zpow_pos hb _).trans_le h.1

theorem le_of_lt (hb : 1 < b) (h : HasPlaces b k r) (h' : r < b ^ k') : k ≤ k' := by
  have hlt := (zpow_lt_zpow_iff_right₀ hb).mp (h.1.trans_lt h')
  omega

theorem le_of_le (hb : 1 < b) (h : HasPlaces b k r) (h' : b ^ (k' - 1) ≤ r) : k' ≤ k := by
  have hlt := (zpow_lt_zpow_iff_right₀ hb).mp (h'.trans_lt h.2)
  omega

theorem unique (hb : 1 < b) (h : HasPlaces b k r) (h' : HasPlaces b k' r) : k = k' :=
  le_antisymm (h.le_of_lt hb h'.2) (h'.le_of_lt hb h.2)

end HasPlaces

theorem parts_ne_zero {num den : Nat} (h : (0 : ℚ) < num / den) : num ≠ 0 ∧ den ≠ 0 := by
  constructor
  · rintro rfl
    simp at h
  · rintro rfl
    simp at h

/-- The binary logarithms of a ratio's parts tell that of the ratio up to one. -/
theorem ratio_bounds {num den : Nat} (h : (0 : ℚ) < num / den) :
    (2 : ℚ) ^ ((num.log2 : Int) - den.log2 - 1) ≤ num / den ∧
      (num / den : ℚ) < 2 ^ ((num.log2 : Int) - den.log2 + 1) := by
  obtain ⟨hnum, hden⟩ := parts_ne_zero h
  have hpos : (0 : ℚ) < den := by exact_mod_cast Nat.pos_of_ne_zero hden
  have hnum_low : (2 : ℚ) ^ (num.log2 : Int) ≤ num := by exact_mod_cast Nat.log2_self_le hnum
  have hnum_high : (num : ℚ) < 2 ^ ((num.log2 : Int) + 1) := by exact_mod_cast Nat.lt_log2_self
  have hden_low : (2 : ℚ) ^ (den.log2 : Int) ≤ den := by exact_mod_cast Nat.log2_self_le hden
  have hden_high : (den : ℚ) < 2 ^ ((den.log2 : Int) + 1) := by exact_mod_cast Nat.lt_log2_self
  have htwo (k : Int) : (0 : ℚ) ≤ 2 ^ k := (zpow_pos two_pos k).le
  constructor
  · rw [le_div_iff₀ hpos]
    calc (2 : ℚ) ^ ((num.log2 : Int) - den.log2 - 1) * den
        ≤ 2 ^ ((num.log2 : Int) - den.log2 - 1) * 2 ^ ((den.log2 : Int) + 1) :=
          mul_le_mul_of_nonneg_left hden_high.le (htwo _)
      _ = 2 ^ (num.log2 : Int) := by rw [← zpow_add₀ two_ne_zero]; congr 1; ring
      _ ≤ num := hnum_low
  · rw [div_lt_iff₀ hpos]
    calc (num : ℚ) < 2 ^ ((num.log2 : Int) + 1) := hnum_high
      _ = 2 ^ ((num.log2 : Int) - den.log2 + 1) * 2 ^ (den.log2 : Int) := by
          rw [← zpow_add₀ two_ne_zero]; congr 1; ring
      _ ≤ 2 ^ ((num.log2 : Int) - den.log2 + 1) * den := mul_le_mul_of_nonneg_left hden_low (htwo _)

theorem exists_hasPlaces {num den : Nat} (h : (0 : ℚ) < num / den) : ∃ k, HasPlaces 2 k (num / den) := by
  obtain ⟨hlow, hhigh⟩ := ratio_bounds h
  by_cases hless : (num / den : ℚ) < 2 ^ ((num.log2 : Int) - den.log2)
  · exact ⟨_, hlow, hless⟩
  · refine ⟨_, ?_, hhigh⟩
    rw [add_sub_cancel_right]
    exact not_lt.mp hless

namespace BinaryFormat

variable {F : BinaryFormat}

theorem lastPlace_eq {num den : Nat} {k : Int} (h : HasPlaces 2 k (num / den)) :
    F.lastPlace num den = max (k - (F.fractionBits + 1)) F.leastExponent := by
  have hpos := h.pos two_pos
  obtain ⟨hlow, hhigh⟩ := ratio_bounds hpos
  have hleast := h.le_of_le one_lt_two hlow
  have hmost := h.le_of_lt one_lt_two hhigh
  let estimate : Int := (num.log2 : Int) - den.log2 - F.fractionBits
  have hcheck : (scaledRatio num den (-estimate)).1 < (scaledRatio num den (-estimate)).2 * twoTo F.fractionBits ↔
      (num / den : ℚ) < 2 ^ ((num.log2 : Int) - den.log2) := by
    have hscaled : (0 : ℚ) < (scaledRatio num den (-estimate)).2 := by
      exact_mod_cast Nat.pos_of_ne_zero (scaledRatio_ne_zero (parts_ne_zero hpos).2 _)
    have hsum : (num.log2 : Int) - den.log2 = F.fractionBits + estimate := by simp only [estimate]; ring
    rw [hsum, zpow_add₀ two_ne_zero, ← div_lt_iff₀ (zpow_pos two_pos estimate), div_eq_mul_inv, ← zpow_neg,
      ← scaledRatio_value, div_lt_iff₀ hscaled, zpow_natCast, ← cast_twoTo, mul_comm]
    exact_mod_cast Iff.rfl
  have hlast : F.lastPlace num den = max (if (scaledRatio num den (-estimate)).1 <
      (scaledRatio num den (-estimate)).2 * twoTo F.fractionBits then estimate - 1 else estimate) F.leastExponent := rfl
  simp only [hlast, hcheck]
  congr 1
  split
  · rename_i hless
    have := h.le_of_lt one_lt_two hless
    simp only [estimate]
    omega
  · rename_i hmore
    have := (zpow_lt_zpow_iff_right₀ one_lt_two).mp ((not_lt.mp hmore).trans_lt h.2)
    simp only [estimate]
    omega

end BinaryFormat

theorem scaledRatio_mul (c num den : Nat) (shift : Int) :
    scaledRatio (c * num) (c * den) shift = (c * (scaledRatio num den shift).1, c * (scaledRatio num den shift).2) := by
  cases shift <;> simp only [scaledRatio, Nat.mul_assoc]

namespace BinaryFormat

variable {F : BinaryFormat}

theorem ofRatio_mul {c num den : Nat} (hc : 0 < c) (hden : den ≠ 0) (negative : Bool) :
    F.ofRatio negative (c * num) (c * den) = F.ofRatio negative num den := by
  by_cases hnum : num = 0
  · simp only [hnum, Nat.mul_zero, ofRatio, if_true]
  · have hc' : (c : ℚ) ≠ 0 := by exact_mod_cast hc.ne'
    have hsame : (num / den : ℚ) = (c * num : Nat) / (c * den : Nat) := by
      rw [Nat.cast_mul, Nat.cast_mul, mul_div_mul_left _ _ hc']
    have hpos : (0 : ℚ) < num / den :=
      div_pos (by exact_mod_cast Nat.pos_of_ne_zero hnum) (by exact_mod_cast Nat.pos_of_ne_zero hden)
    obtain ⟨k, hplaces⟩ := exists_hasPlaces hpos
    have hlast : F.lastPlace (c * num) (c * den) = F.lastPlace num den := by
      rw [lastPlace_eq hplaces, lastPlace_eq (hsame ▸ hplaces)]
    simp only [ofRatio, hlast, scaledRatio_mul, roundDiv_mul hc, Nat.mul_eq_zero, hc.ne', hnum,
      or_self]

/-- Ratios of one value round to one pattern. -/
theorem ofRatio_congr {num den num' den' : Nat} (hden : den ≠ 0) (hden' : den' ≠ 0)
    (h : (num / den : ℚ) = num' / den') (negative : Bool) : F.ofRatio negative num den = F.ofRatio negative num' den' := by
  have hcross : num * den' = num' * den := by
    have hd : (den : ℚ) ≠ 0 := by exact_mod_cast hden
    have hd' : (den' : ℚ) ≠ 0 := by exact_mod_cast hden'
    exact_mod_cast (div_eq_div_iff hd hd').mp h
  rw [← ofRatio_mul (Nat.pos_of_ne_zero hden') hden, ← ofRatio_mul (Nat.pos_of_ne_zero hden) hden',
    Nat.mul_comm den' num, hcross, Nat.mul_comm den' den, Nat.mul_comm num' den]

/-- The pattern that the sign, mantissa and exponent of a finite number have. -/
def pattern (F : BinaryFormat) (negative : Bool) (m : Nat) (q : Int) : Nat :=
  (if negative then F.signBit else 0) + ((q - F.leastExponent).toNat * twoTo F.fractionBits + m)

/-- The mantissa has the width of the format, and is as wide as that unless the exponent is the least. -/
structure Regular (F : BinaryFormat) (m : Nat) (q : Int) : Prop where
  least : F.leastExponent ≤ q
  narrow : m < 2 ^ (F.fractionBits + 1)
  wide : q ≠ F.leastExponent → 2 ^ F.fractionBits ≤ m
  finite : (q - F.leastExponent).toNat * twoTo F.fractionBits + m < F.infinity

theorem eq_sign_add {bits : Nat} (h : bits < 2 * F.signBit) :
    bits = (if F.signBit ≤ bits then F.signBit else 0) + bits % F.signBit := by
  split
  · rename_i hle
    rw [Nat.mod_eq_sub_mod hle, Nat.mod_eq_of_lt (by omega)]
    omega
  · rename_i hlt
    rw [Nat.mod_eq_of_lt (by omega), Nat.zero_add]

theorem regular_of_value {bits m : Nat} {q : Int} {negative : Bool} (hbits : bits < 2 * F.signBit)
    (h : F.value bits = .finite negative m q) : F.Regular m q ∧ bits = F.pattern negative m q := by
  have hsign := eq_sign_add hbits
  have hone : 0 < twoTo F.fractionBits := Nat.pow_pos (by decide)
  have hwide : 2 ^ (F.fractionBits + 1) = twoTo F.fractionBits + twoTo F.fractionBits := by
    rw [pow_succ, Nat.mul_two]
    rfl
  unfold value at h
  dsimp only at h
  generalize hmagnitude : bits % F.signBit = magnitude at h hsign
  have hparts := Nat.div_add_mod' magnitude (twoTo F.fractionBits)
  have hfraction := Nat.mod_lt magnitude hone
  generalize magnitude / twoTo F.fractionBits = field at h hparts
  generalize magnitude % twoTo F.fractionBits = fraction at h hparts hfraction
  split at h
  · cases h
  rename_i hfinite
  split at h
  · cases h
  rename_i hnumber
  have hless : magnitude < F.infinity := by omega
  split at h
  · rename_i hsubnormal
    obtain ⟨rfl, rfl, rfl⟩ : decide (F.signBit ≤ bits) = negative ∧ fraction = m ∧ F.leastExponent = q := by simpa using h
    rw [hsubnormal, Nat.zero_mul, Nat.zero_add] at hparts
    have hplace : (F.leastExponent - F.leastExponent).toNat * twoTo F.fractionBits + fraction = magnitude := by
      rw [sub_self, Int.toNat_zero, Nat.zero_mul, Nat.zero_add, hparts]
    refine ⟨⟨le_rfl, by omega, fun hne => absurd rfl hne, hplace ▸ hless⟩, ?_⟩
    rw [pattern, hplace]
    simpa using hsign
  · rename_i hnormal
    obtain ⟨k, rfl⟩ : ∃ k, field = k + 1 := ⟨field - 1, by omega⟩
    obtain ⟨rfl, rfl, rfl⟩ : decide (F.signBit ≤ bits) = negative ∧ twoTo F.fractionBits + fraction = m ∧
        F.leastExponent + k = q := by simpa using h
    have hplace : (F.leastExponent + k - F.leastExponent).toNat * twoTo F.fractionBits +
        (twoTo F.fractionBits + fraction) = magnitude := by
      rw [add_sub_cancel_left, Int.toNat_natCast, ← hparts, Nat.succ_mul, Nat.add_assoc]
    refine ⟨⟨by omega, by omega, fun _ => Nat.le_add_right _ _, hplace ▸ hless⟩, ?_⟩
    rw [pattern, hplace]
    simpa using hsign

theorem ofRatio_of_lastPlace {num den k : Nat} {e : Int} (hpos : (0 : ℚ) < num / den) (hlast : F.lastPlace num den = e)
    (hnear : |(num / den : ℚ) - k * 2 ^ e| < 2 ^ e / 2)
    (hfinite : (e - F.leastExponent).toNat * twoTo F.fractionBits + k ≤ F.infinity) (negative : Bool) :
    F.ofRatio negative num den = F.pattern negative k e := by
  obtain ⟨hnum, hden⟩ := parts_ne_zero hpos
  have htwo : (0 : ℚ) < 2 ^ e := zpow_pos two_pos e
  have hround : roundDiv (scaledRatio num den (-e)).1 (scaledRatio num den (-e)).2 = k := by
    refine roundDiv_eq (scaledRatio_ne_zero hden _) ?_
    have hscaled : (num / den * 2 ^ (-e) - k : ℚ) = (num / den - k * 2 ^ e) / 2 ^ e := by
      rw [zpow_neg]
      field_simp
    rw [scaledRatio_value, hscaled, abs_div, abs_of_pos htwo, div_lt_iff₀ htwo]
    linarith
  simp only [ofRatio, hnum, if_false, hlast, hround, Nat.min_eq_left hfinite]
  cases negative
  · simp [pattern]
  · rfl

/-- What is less than half a mesh away from a number of the format is rounded to it, unless it is below a power of two
and so near to it that the mesh is finer there. -/
theorem ofRatio_of_near {num den m : Nat} {q : Int} (hregular : F.Regular m q) (hpos : (0 : ℚ) < num / den)
    (hsame : q ≠ F.leastExponent → (2 : ℚ) ^ (F.fractionBits + q) ≤ num / den)
    (hnear : |(num / den : ℚ) - m * 2 ^ q| < 2 ^ q / 2) (negative : Bool) :
    F.ofRatio negative num den = F.pattern negative m q := by
  have ht : (0 : ℚ) < 2 ^ q := zpow_pos two_pos q
  have hnarrow : (m : ℚ) + 1 ≤ 2 ^ (F.fractionBits + 1) := by exact_mod_cast hregular.narrow
  have hless : (num / den : ℚ) < 2 ^ (F.fractionBits + 1 + q) := by
    calc (num / den : ℚ) < m * 2 ^ q + 2 ^ q := by linarith [(abs_lt.mp hnear).2]
      _ = (m + 1) * 2 ^ q := by ring
      _ ≤ 2 ^ (F.fractionBits + 1) * 2 ^ q := mul_le_mul_of_nonneg_right hnarrow ht.le
      _ = 2 ^ (F.fractionBits + 1 + q) := by rw [zpow_add₀ two_ne_zero, ← zpow_natCast]; rfl
  obtain ⟨k, hplaces⟩ := exists_hasPlaces hpos
  have hmost := hplaces.le_of_lt one_lt_two hless
  have hlast : F.lastPlace num den = q := by
    rw [lastPlace_eq hplaces]
    by_cases hleast : q = F.leastExponent
    · omega
    · have hfills := (zpow_lt_zpow_iff_right₀ one_lt_two).mp ((hsame hleast).trans_lt hplaces.2)
      have := hregular.least
      omega
  exact ofRatio_of_lastPlace hpos hlast hnear hregular.finite.le negative

/-- Below a power of two the numbers stand twice as close, and what is near enough rounds to that power from there. -/
theorem ofRatio_of_near_power {num den : Nat} {q : Int} (hregular : F.Regular (2 ^ F.fractionBits) q)
    (hleast : q ≠ F.leastExponent) (hbelow : (num / den : ℚ) < 2 ^ (F.fractionBits + q))
    (hnear : |(num / den : ℚ) - 2 ^ (F.fractionBits + q)| < 2 ^ (q - 1) / 2) (negative : Bool) :
    F.ofRatio negative num den = F.pattern negative (2 ^ F.fractionBits) q := by
  have hlower : (2 : ℚ) ^ (q - 1) ≤ 2 ^ (F.fractionBits + q - 1) := by
    exact zpow_le_zpow_right₀ one_le_two (by omega)
  have hhalf : (2 : ℚ) ^ (F.fractionBits + q) = 2 ^ (F.fractionBits + q - 1) + 2 ^ (F.fractionBits + q - 1) := by
    rw [zpow_sub_one₀ two_ne_zero]
    ring
  have ht : (0 : ℚ) < 2 ^ (q - 1) := zpow_pos two_pos _
  have hplaces : HasPlaces 2 (F.fractionBits + q) (num / den) := ⟨by linarith [(abs_lt.mp hnear).1], hbelow⟩
  have hlast : F.lastPlace num den = q - 1 := by
    rw [lastPlace_eq hplaces]
    have := hregular.least
    omega
  have hdouble : ((2 ^ (F.fractionBits + 1) : Nat) : ℚ) * 2 ^ (q - 1) = 2 ^ (F.fractionBits + q) := by
    rw [Nat.cast_pow, Nat.cast_two, ← zpow_natCast, ← zpow_add₀ two_ne_zero]
    congr 1
    push_cast
    ring
  have hplace : (q - 1 - F.leastExponent).toNat * twoTo F.fractionBits + 2 ^ (F.fractionBits + 1) =
      (q - F.leastExponent).toNat * twoTo F.fractionBits + 2 ^ F.fractionBits := by
    have hcount : (q - F.leastExponent).toNat = (q - 1 - F.leastExponent).toNat + 1 := by
      have := hregular.least
      omega
    rw [hcount, Nat.succ_mul, pow_succ, Nat.mul_two, Nat.add_assoc]
    rfl
  have hround := ofRatio_of_lastPlace (k := 2 ^ (F.fractionBits + 1)) (hplaces.pos two_pos) hlast
    (by rwa [hdouble]) (by rw [hplace]; exact hregular.finite.le) negative
  rw [hround, pattern, pattern, hplace]

/-- A ratio has the pattern of a number of the format if it comes closer to that than any other one can. -/
theorem ofRatio_eq_pattern {num den m : Nat} {q : Int} (hregular : F.Regular m q) (hm : 0 < m)
    (hnear : |(num / den : ℚ) - m * 2 ^ q| < m * 2 ^ q / 2 ^ (F.fractionBits + 2)) (negative : Bool) :
    F.ofRatio negative num den = F.pattern negative m q := by
  have ht : (0 : ℚ) < 2 ^ q := zpow_pos two_pos q
  have hnarrow : (m : ℚ) < 2 ^ (F.fractionBits + 1) := by exact_mod_cast hregular.narrow
  have hhalf : (m * 2 ^ q / 2 ^ (F.fractionBits + 2) : ℚ) < 2 ^ q / 2 := by
    rw [div_lt_iff₀ (by positivity)]
    calc (m * 2 ^ q : ℚ) < 2 ^ (F.fractionBits + 1) * 2 ^ q := mul_lt_mul_of_pos_right hnarrow ht
      _ = 2 ^ q / 2 * 2 ^ (F.fractionBits + 2) := by ring
  have hmore : (2 ^ q : ℚ) ≤ m * 2 ^ q := le_mul_of_one_le_left ht.le (by exact_mod_cast hm)
  have hpos : (0 : ℚ) < num / den := by linarith [(abs_lt.mp hnear).1]
  by_cases hsame : q ≠ F.leastExponent → (2 : ℚ) ^ (F.fractionBits + q) ≤ num / den
  · exact ofRatio_of_near hregular hpos hsame (hnear.trans hhalf) negative
  obtain ⟨hleast, hbelow⟩ := Classical.not_imp.mp hsame
  have hedge : (2 : ℚ) ^ (F.fractionBits + q) = 2 ^ F.fractionBits * 2 ^ q := by
    rw [zpow_add₀ two_ne_zero, zpow_natCast]
  obtain rfl : m = 2 ^ F.fractionBits := by
    by_contra hne
    have habove : (2 ^ F.fractionBits + 1 : ℚ) ≤ m := by
      exact_mod_cast Nat.lt_of_le_of_ne (hregular.wide hleast) (Ne.symm hne)
    have hgap : (2 ^ F.fractionBits * 2 ^ q + 2 ^ q : ℚ) ≤ m * 2 ^ q := by
      calc (2 ^ F.fractionBits * 2 ^ q + 2 ^ q : ℚ) = (2 ^ F.fractionBits + 1) * 2 ^ q := by ring
        _ ≤ m * 2 ^ q := mul_le_mul_of_nonneg_right habove ht.le
    linarith [(abs_lt.mp hnear).1]
  refine ofRatio_of_near_power hregular hleast (not_le.mp hbelow) ?_ negative
  have hquarter : ((2 ^ F.fractionBits * 2 ^ q / 2 ^ (F.fractionBits + 2)) : ℚ) = 2 ^ (q - 1) / 2 := by
    rw [zpow_sub_one₀ two_ne_zero, pow_add]
    field_simp
  rwa [Nat.cast_pow, Nat.cast_two, ← hedge, hedge, hquarter, ← hedge] at hnear

theorem bits_of_infinite {bits : Nat} {negative : Bool} (hbits : bits < 2 * F.signBit)
    (h : F.value bits = .infinite negative) : bits = if negative then F.signBit + F.infinity else F.infinity := by
  have hsign := eq_sign_add hbits
  unfold value at h
  dsimp only at h
  generalize bits % F.signBit = magnitude at h hsign
  split at h
  · rename_i hinfinity
    obtain rfl : decide (F.signBit ≤ bits) = negative := by simpa using h
    rw [hinfinity] at hsign
    by_cases hnegative : F.signBit ≤ bits
    · rw [if_pos hnegative] at hsign
      exact hsign.trans (if_pos (decide_eq_true hnegative)).symm
    · rw [if_neg hnegative, Nat.zero_add] at hsign
      exact hsign.trans (if_neg (by simpa using hnegative)).symm
  split at h
  · cases h
  split at h <;> cases h

theorem infinity_add (F : BinaryFormat) : F.infinity + twoTo F.fractionBits = F.signBit := by
  have hpos : 0 < twoTo F.exponentBits := Nat.pow_pos (by decide)
  have hproduct : F.signBit = twoTo F.exponentBits * twoTo F.fractionBits := pow_add 2 _ _
  rw [infinity, hproduct, ← Nat.succ_mul, Nat.succ_eq_add_one, Nat.sub_add_cancel hpos]

theorem ofRatio_le (F : BinaryFormat) (negative : Bool) (num den : Nat) : F.ofRatio negative num den ≤ F.signBit + F.infinity := by
  have hmagnitude (n : Nat) : (if num = 0 then 0 else min n F.infinity) ≤ F.infinity := by
    split
    · exact Nat.zero_le _
    · exact Nat.min_le_right _ _
  unfold ofRatio
  cases negative with
  | false => exact Nat.le_trans (hmagnitude _) (Nat.le_add_left _ _)
  | true => exact Nat.add_le_add_left (hmagnitude _) _

/-- The patterns of a format have as many bits as that. -/
theorem ofValue_lt (v : BinaryValue) : F.ofValue v < 2 * F.signBit := by
  have hsign := F.infinity_add
  have hone : 0 < twoTo F.fractionBits := Nat.pow_pos (by decide)
  cases v with
  | nan =>
    have hquiet : twoTo (F.fractionBits - 1) ≤ twoTo F.fractionBits := Nat.pow_le_pow_right (by decide) (Nat.sub_le _ 1)
    simp only [ofValue, quietNaN]
    omega
  | infinite negative =>
    simp only [ofValue]
    split <;> omega
  | finite negative m q =>
    have hmost := F.ofRatio_le negative (scaledRatio m 1 q).1 (scaledRatio m 1 q).2
    simp only [ofValue]
    omega

end BinaryFormat

namespace Binary64
open BinaryFormat (double)

theorem eq_of_bits {x y : Binary64} (h : x.bits = y.bits) : x = y := by
  obtain ⟨bits, _⟩ := x
  obtain rfl : bits = y.bits := h
  rfl

theorem ofBits_bits (x : Binary64) : ofBits x.bits = x := by
  unfold ofBits
  split
  · rename_i hnan
    exact eq_of_bits (x.nan_unique hnan).symm
  · rfl

theorem bits_lt (x : Binary64) : x.bits.toNat < 2 * double.signBit := x.bits.toNat_lt

theorem eq_ofBits {x : Binary64} {n : Nat} (h : x.bits.toNat = n) : ofBits (UInt64.ofNat n) = x := by
  rw [← h, UInt64.ofNat_toNat, ofBits_bits]

theorem eq_nan {x : Binary64} (h : x.value = .nan) : nan = x := eq_of_bits (x.nan_unique h).symm

theorem eq_infinity {x : Binary64} {negative : Bool} (h : x.value = .infinite negative) : infinity negative = x :=
  eq_ofBits (BinaryFormat.bits_of_infinite x.bits_lt h)

theorem ofRatio_eq_zero {x : Binary64} {negative : Bool} {q : Int} (h : x.value = .finite negative 0 q) :
    ofRatio negative 0 1 = x := by
  obtain ⟨hregular, hbits⟩ := BinaryFormat.regular_of_value x.bits_lt h
  obtain rfl : q = double.leastExponent := by
    by_contra hne
    exact absurd (hregular.wide hne) (by decide)
  refine eq_ofBits (hbits.trans ?_)
  cases negative <;> rfl

/-- What comes close enough to a double rounds to it. -/
theorem ofRatio_eq {x : Binary64} {negative : Bool} {m num den : Nat} {q : Int} (h : x.value = .finite negative m q)
    (hm : 0 < m) (hnear : |(num / den : ℚ) - m * 2 ^ q| < m * 2 ^ q / 2 ^ 54) : ofRatio negative num den = x := by
  obtain ⟨hregular, hbits⟩ := BinaryFormat.regular_of_value x.bits_lt h
  refine eq_ofBits (hbits.trans ?_)
  exact (BinaryFormat.ofRatio_eq_pattern hregular hm hnear negative).symm

theorem ofRatio_congr {num den num' den' : Nat} (hden : den ≠ 0) (hden' : den' ≠ 0)
    (h : (num / den : ℚ) = num' / den') (negative : Bool) : ofRatio negative num den = ofRatio negative num' den' :=
  congrArg (fun n => ofBits (UInt64.ofNat n)) (BinaryFormat.ofRatio_congr hden hden' h negative)

/-- A double is what its own value rounds to. -/
theorem ofValue_value (x : Binary64) : ofValue x.value = x := by
  cases hx : x.value with
  | nan => exact eq_nan hx
  | infinite negative => exact eq_infinity hx
  | finite negative m q =>
    have hden : (scaledRatio m 1 q).2 ≠ 0 := scaledRatio_ne_zero one_ne_zero q
    have hratio : ((scaledRatio m 1 q).1 / (scaledRatio m 1 q).2 : ℚ) = m * 2 ^ q := by
      rw [scaledRatio_value, Nat.cast_one, div_one]
    change ofRatio negative (scaledRatio m 1 q).1 (scaledRatio m 1 q).2 = x
    rcases Nat.eq_zero_or_pos m with rfl | hm
    · rw [← ofRatio_eq_zero hx]
      exact ofRatio_congr hden one_ne_zero (by simpa using hratio) negative
    · refine ofRatio_eq hx hm ?_
      rw [hratio, sub_self, abs_zero]
      positivity

/-- The positive doubles, between two powers of two. -/
theorem bounds_of_value {x : Binary64} {negative : Bool} {m : Nat} {q : Int} (h : x.value = .finite negative m q)
    (hm : 0 < m) : (2 : ℚ) ^ (-1074 : Int) ≤ m * 2 ^ q ∧ (m * 2 ^ q : ℚ) < 2 ^ (1025 : Int) := by
  obtain ⟨⟨hleast, hnarrow, _, hfinite⟩, _⟩ := BinaryFormat.regular_of_value x.bits_lt h
  have hleast : -1074 ≤ q := hleast
  have hfinite : (q + 1074).toNat * 2 ^ 52 + m < 2047 * 2 ^ 52 := hfinite
  have ht : (0 : ℚ) < 2 ^ q := zpow_pos two_pos q
  constructor
  · calc (2 : ℚ) ^ (-1074 : Int) ≤ 2 ^ q := zpow_le_zpow_right₀ one_le_two hleast
      _ ≤ m * 2 ^ q := le_mul_of_one_le_left ht.le (by exact_mod_cast hm)
  · have hmost : q ≤ 972 := by omega
    have hwidth : (m : ℚ) < 2 ^ (53 : Int) := by exact_mod_cast hnarrow
    calc (m * 2 ^ q : ℚ) < 2 ^ (53 : Int) * 2 ^ q := mul_lt_mul_of_pos_right hwidth ht
      _ = 2 ^ (53 + q) := (zpow_add₀ two_ne_zero _ _).symm
      _ ≤ 2 ^ (1025 : Int) := zpow_le_zpow_right₀ one_le_two (by omega)

end Binary64

end Signatory
