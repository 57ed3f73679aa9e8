import Mathlib.Tactic.IntervalCases
import Signatory.Text.Basic

/-! Texts of ASCII alone, and numbers written out: the digits of decimal and of hexadecimal text tell the number. Texts in
order. -/

namespace Signatory
set_option autoImplicit false

namespace CodePoint

theorem val_ofChar (c : Char) : (ofChar c).val = c.toNat := rfl

theorem ofChar_injective : Function.Injective ofChar := by
  intro c d h
  rw [Fin.ext_iff, val_ofChar, val_ofChar] at h
  exact Char.toNat_inj.mp h

theorem is_iff {p : CodePoint} {c : Char} : p.is c = true ↔ p = ofChar c := by
  rw [is, beq_iff_eq, Fin.ext_iff, val_ofChar]

theorem is_eq_false_iff {p : CodePoint} {c : Char} : p.is c = false ↔ ¬p = ofChar c := by
  rw [← Bool.not_eq_true, is_iff]

theorem hexDigit?_digitChar {d : Nat} (h : d < 16) : (ofChar (Nat.digitChar d)).hexDigit? = some d := by
  interval_cases d <;> rfl

theorem toNat_of_isDigit {c : Char} (h : c.isDigit = true) : 48 ≤ c.toNat ∧ c.toNat ≤ 57 := by
  simp only [Char.isDigit, Bool.and_eq_true, decide_eq_true_eq, ge_iff_le, UInt32.le_iff_toNat_le] at h
  exact h

theorem digit?_of_isDigit {c : Char} (h : c.isDigit = true) : (ofChar c).digit? = some (c.toNat - 48) := by
  have hrange : (ofChar c).within '0' '9' = true := by
    rw [within, Bool.and_eq_true, decide_eq_true_eq, decide_eq_true_eq]
    exact toNat_of_isDigit h
  rw [digit?, if_pos hrange, val_ofChar]

end CodePoint

namespace Text

theorem ofString_injective : Function.Injective ofString := fun _ _ h =>
  String.toList_injective ((List.map_inj_right fun _ _ => @CodePoint.ofChar_injective _ _).mp h)

def isAscii (s : Text) : Bool := s.all fun p => p.val < 128

@[simp] theorem isAscii_append (s t : Text) : isAscii (s ++ t) = (isAscii s && isAscii t) := List.all_append

@[simp] theorem isAscii_cons (p : CodePoint) (s : Text) : isAscii (p :: s) = (decide (p.val < 128) && isAscii s) :=
  List.all_cons

theorem isAscii_flatten (parts : List Text) : isAscii parts.flatten = parts.all isAscii := List.all_flatten

theorem isAscii_concat (parts : List Text) : isAscii (concat parts) = parts.all isAscii := List.all_flatten

theorem isAscii_of_sublist {s t : Text} (h : s.Sublist t) (ht : isAscii t = true) : isAscii s = true := by
  rw [isAscii, List.all_eq_true] at ht ⊢
  exact fun p hp => ht p (h.subset hp)

theorem isSurrogate_of_all {s : Text} (h : (s.all fun p => !p.isSurrogate) = true) : ∀ p ∈ s, p.isSurrogate = false := by
  simpa using h

theorem isSurrogate_of_isAscii {s : Text} (h : isAscii s = true) : ∀ p ∈ s, p.isSurrogate = false := by
  intro p hp
  have hlt := of_decide_eq_true (List.all_eq_true.mp h p hp)
  rw [CodePoint.isSurrogate, Bool.and_eq_false_iff, decide_eq_false_iff_not]
  exact .inl (by omega)

theorem join_singleton (separator s : Text) : join separator [s] = s := by
  rw [join, List.intersperse_singleton, List.flatten_cons, List.flatten_nil, List.append_nil]

theorem join_cons_cons (separator s t : Text) (parts : List Text) :
    join separator (s :: t :: parts) = s ++ (separator ++ join separator (t :: parts)) := by
  rw [join, List.intersperse_cons_cons, List.flatten_cons, List.flatten_cons, join]

theorem isAscii_join {separator : Text} {parts : List Text} (hseparator : isAscii separator = true)
    (h : ∀ s ∈ parts, isAscii s = true) : isAscii (join separator parts) = true := by
  induction parts with
  | nil => rfl
  | cons s parts ih =>
    rw [List.forall_mem_cons] at h
    cases parts with
    | nil =>
      rw [join_singleton]
      exact h.1
    | cons t parts => rw [join_cons_cons, isAscii_append, isAscii_append, h.1, hseparator, ih h.2, Bool.true_and,
        Bool.true_and]

theorem ofHex_one {n : Nat} (h : n < 16) : ofHex 1 n = [CodePoint.ofChar (Nat.digitChar n)] := by
  rw [ofHex, Nat.toDigits_of_lt_base h]
  rfl

/-- The last digit stands behind the numeral of all before it. -/
theorem ofHex_succ {width : Nat} (hwidth : width ≠ 0) (n : Nat) :
    ofHex (width + 1) n = ofHex width (n / 16) ++ [CodePoint.ofChar (Nat.digitChar (n % 16))] := by
  unfold ofHex
  by_cases h : n < 16
  · have hzero : n / 16 = 0 := Nat.div_eq_of_lt h
    obtain ⟨w, rfl⟩ := Nat.exists_eq_succ_of_ne_zero hwidth
    rw [Nat.toDigits_of_lt_base h, hzero, Nat.mod_eq_of_lt h]
    simp only [Nat.toDigits_of_lt_base (show 0 < 16 by decide), List.map_cons, List.map_nil, List.length_singleton,
      Nat.add_sub_cancel, Nat.succ_eq_add_one]
    exact congrArg (· ++ _) List.replicate_succ'
  · rw [Nat.toDigits_of_base_le (by decide) (Nat.le_of_not_lt h)]
    simp

theorem ofHex_four {n : Nat} (h : n < 0x10000) :
    ofHex 4 n = [CodePoint.ofChar (Nat.digitChar (n / 4096)), CodePoint.ofChar (Nat.digitChar (n / 256 % 16)),
      CodePoint.ofChar (Nat.digitChar (n / 16 % 16)), CodePoint.ofChar (Nat.digitChar (n % 16))] := by
  have hfirst : n / 16 / 16 / 16 = n / 4096 := by omega
  have hsecond : n / 16 / 16 % 16 = n / 256 % 16 := by omega
  rw [ofHex_succ (by decide), ofHex_succ (by decide), ofHex_succ (by decide), ofHex_one (by omega), hfirst, hsecond]
  rfl

/-- The values of the digits that a number is written in. -/
def digitsOf (n : Nat) : List Nat := (Nat.toDigits 10 n).map fun c => c.toNat - 48

theorem length_digitsOf (n : Nat) : (digitsOf n).length = (ofNat n).length := by
  rw [digitsOf, ofNat, List.length_map, List.length_map]

theorem length_digitsOf_le {n k : Nat} (hk : 0 < k) (h : n < 10 ^ k) : (digitsOf n).length ≤ k := by
  rw [digitsOf, List.length_map]
  exact (Nat.length_toDigits_le_iff (by decide) hk).mpr h

theorem natOfDigits_digitsOf (n : Nat) : natOfDigits 0 (digitsOf n) = n := by
  have hread := Nat.ofDigitChars_ten_toDigits (n := n)
  rw [Nat.ofDigitChars_eq_foldl] at hread
  rw [natOfDigits, digitsOf, List.foldl_map]
  exact hread

/-- A number but zero begins with another digit than that. -/
theorem exists_digitsOf {n : Nat} (h : n ≠ 0) : ∃ d ds, digitsOf n = (d + 1) :: ds := by
  induction n using Nat.strongRecOn with
  | ind n ih =>
    unfold digitsOf at ih ⊢
    by_cases hn : n < 10
    · refine ⟨n - 1, [], ?_⟩
      rw [Nat.toDigits_of_lt_base hn, List.map_singleton, Nat.toNat_digitChar_of_lt_ten hn]
      congr 1
      omega
    · obtain ⟨d, ds, hfront⟩ := ih (n / 10) (by omega) (by omega)
      rw [Nat.toDigits_of_base_le (by decide) (by omega), List.map_append, hfront]
      exact ⟨d, _, rfl⟩

theorem spanDigits_map {cs : List Char} (h : ∀ c ∈ cs, c.isDigit = true) :
    spanDigits (cs.map CodePoint.ofChar) = (cs.map fun c => c.toNat - 48, []) := by
  induction cs with
  | nil => rfl
  | cons c cs ih =>
    rw [List.forall_mem_cons] at h
    rw [List.map_cons, List.map_cons, spanDigits, CodePoint.digit?_of_isDigit h.1, ih h.2]

theorem spanDigits_ofNat (n : Nat) : spanDigits (ofNat n) = (digitsOf n, []) :=
  spanDigits_map fun _ hc => Nat.isDigit_of_mem_toDigits (by decide) (by decide) hc

theorem exists_ofNat (n : Nat) : ∃ p t d, ofNat n = p :: t ∧ p.digit? = some d := by
  unfold ofNat
  cases hdigits : Nat.toDigits 10 n with
  | nil => exact absurd hdigits Nat.toDigits_ne_nil
  | cons c cs =>
    have hc : c ∈ Nat.toDigits 10 n := hdigits ▸ List.mem_cons_self
    exact ⟨_, _, _, rfl, CodePoint.digit?_of_isDigit (Nat.isDigit_of_mem_toDigits (by decide) (by decide) hc)⟩

theorem isAscii_ofNat (n : Nat) : isAscii (ofNat n) = true := by
  rw [ofNat, isAscii, List.all_map, List.all_eq_true]
  intro c hc
  have hrange := CodePoint.toNat_of_isDigit (Nat.isDigit_of_mem_toDigits (by decide) (by decide) hc)
  exact decide_eq_true (Nat.lt_of_le_of_lt hrange.2 (by decide))

theorem isAscii_ofInt (i : Int) : isAscii (ofInt i) = true := by
  cases i with
  | ofNat n => exact isAscii_ofNat n
  | negSucc n => exact isAscii_ofNat (n + 1)

theorem isAscii_ofHex_four {n : Nat} (h : n < 0x10000) : isAscii (ofHex 4 n) = true := by
  have hdigit {d : Nat} (hd : d < 16) : (CodePoint.ofChar (Nat.digitChar d)).val < 128 := by
    interval_cases d <;> decide
  rw [ofHex_four h]
  simp [isAscii, hdigit (show n / 4096 < 16 by omega), hdigit (show n / 256 % 16 < 16 by omega),
    hdigit (show n / 16 % 16 < 16 by omega), hdigit (show n % 16 < 16 by omega)]

theorem le_trans (s t u : Text) (hst : le s t = true) (htu : le t u = true) : le s u = true := by
  induction s generalizing t u with
  | nil => rfl
  | cons a s ih =>
    rcases t with _ | ⟨b, t⟩
    · cases hst
    rcases u with _ | ⟨c, u⟩
    · cases htu
    simp only [le, Bool.or_eq_true, Bool.and_eq_true, decide_eq_true_eq, beq_iff_eq] at hst htu ⊢
    rcases hst with hab | ⟨hab, hst⟩ <;> rcases htu with hbc | ⟨hbc, htu⟩
    · exact .inl (by omega)
    · exact .inl (by omega)
    · exact .inl (by omega)
    · exact .inr ⟨by omega, ih t u hst htu⟩

theorem le_total (s t : Text) : (le s t || le t s) = true := by
  induction s generalizing t with
  | nil => rfl
  | cons a s ih =>
    rcases t with _ | ⟨b, t⟩
    · rfl
    simp only [le, Bool.or_eq_true, Bool.and_eq_true, decide_eq_true_eq, beq_iff_eq] at ih ⊢
    rcases Nat.lt_trichotomy a.val b.val with h | h | h
    · exact .inl (.inl h)
    · rcases ih t with ih | ih
      · exact .inl (.inr ⟨h, ih⟩)
      · exact .inr (.inr ⟨h.symm, ih⟩)
    · exact .inr (.inl h)

theorem le_antisymm (s t : Text) (hst : le s t = true) (hts : le t s = true) : s = t := by
  induction s generalizing t with
  | nil =>
    cases t with
    | nil => rfl
    | cons b t => cases hts
  | cons a s ih =>
    cases t with
    | nil => cases hst
    | cons b t =>
      simp only [le, Bool.or_eq_true, Bool.and_eq_true, decide_eq_true_eq, beq_iff_eq] at hst hts
      rcases hst with hab | ⟨hab, hst⟩
      · omega
      · rcases hts with hba | ⟨_, hts⟩
        · omega
        · rw [Fin.ext hab, ih t hst hts]

end Text

end Signatory
