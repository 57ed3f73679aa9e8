import Mathlib.Data.Nat.Digits.Lemmas
import Signatory.Account.Address
import Signatory.Proofs.Bytes
import Signatory.Proofs.Text.Basic

/-! Addresses read from text. A text of hexadecimal digits is read as the number it denotes; beyond these, the texts that
hold blanks between whole pairs of digits are read. -/

namespace Signatory.Address
set_option autoImplicit false

/-- The text consists of hexadecimal digits, and these are their values. -/
def Digits (s : Text) (ds : List Nat) : Prop := s.map CodePoint.hexDigit? = ds.map some

/-- The number that digits denote in base sixteen, the first one being the most significant. -/
def hexValue (ds : List Nat) : Nat := Nat.ofDigits 16 ds.reverse

theorem digits_nil : Digits [] [] := rfl

theorem digits_cons {p : CodePoint} {s : Text} {d : Nat} {ds : List Nat} :
    Digits (p :: s) (d :: ds) ↔ p.hexDigit? = some d ∧ Digits s ds := by
  rw [Digits, List.map_cons, List.map_cons, List.cons.injEq, Digits]

theorem Digits.length_eq {s : Text} {ds : List Nat} (h : Digits s ds) : s.length = ds.length := by
  simpa only [List.length_map] using congrArg List.length h

theorem Digits.exists_of_mem {s : Text} {ds : List Nat} (h : Digits s ds) {p : CodePoint} (hp : p ∈ s) :
    ∃ d, p.hexDigit? = some d := by
  have hmem : p.hexDigit? ∈ ds.map some := h ▸ List.mem_map_of_mem hp
  obtain ⟨d, _, hd⟩ := List.mem_map.mp hmem
  exact ⟨d, hd.symm⟩

theorem hexValue_cons (d : Nat) (ds : List Nat) : hexValue (d :: ds) = d * 16 ^ ds.length + hexValue ds := by
  rw [hexValue, List.reverse_cons, Nat.ofDigits_append, Nat.ofDigits_singleton, List.length_reverse, hexValue]
  ring

theorem hexValue_zeros (k : Nat) (ds : List Nat) : hexValue (List.replicate k 0 ++ ds) = hexValue ds := by
  induction k with
  | zero => rfl
  | succ k ih => rw [List.replicate_succ, List.cons_append, hexValue_cons, ih, Nat.zero_mul, Nat.zero_add]

/-- The address of the number that at most two digits for each byte denote. -/
def Denotes (ds : List Nat) (a : Bytes) : Prop := ds.length ≤ 2 * size ∧ a = Bytes.ofNat size (hexValue ds)

/-- A zero in front of an odd count of digits changes nothing: the count stays within two for each byte. -/
theorem denotes_zero_cons {ds : List Nat} (h : ds.length % 2 = 1) (a : Bytes) : Denotes (0 :: ds) a ↔ Denotes ds a := by
  have hlength : (0 :: ds).length ≤ 2 * size ↔ ds.length ≤ 2 * size := by
    rw [List.length_cons]
    omega
  rw [Denotes, Denotes, hlength, hexValue_cons, Nat.zero_mul, Nat.zero_add]

/-- The digits of a text in which whole pairs of them stand, with blanks before, between and after the pairs. -/
inductive SpacedPairs : Text → List Nat → Prop
  | nil : SpacedPairs [] []
  | blank {p : CodePoint} {s : Text} {ds : List Nat} (hp : p.isAsciiBlank = true) (rest : SpacedPairs s ds) :
      SpacedPairs (p :: s) ds
  | pair {p q : CodePoint} {s : Text} {high low : Nat} {ds : List Nat} (hp : p.hexDigit? = some high)
      (hq : q.hexDigit? = some low) (rest : SpacedPairs s ds) : SpacedPairs (p :: q :: s) (high :: low :: ds)

theorem hexDigit?_of_isAsciiBlank {p : CodePoint} (h : p.isAsciiBlank = true) : p.hexDigit? = none := by
  simp only [CodePoint.isAsciiBlank, Bool.or_eq_true, Bool.and_eq_true, beq_iff_eq, decide_eq_true_eq] at h
  have hsmall : p.val < 48 := by omega
  have hbelow {low high : Char} (hlow : 48 ≤ low.toNat) : p.within low high = false := by
    rw [CodePoint.within, Bool.and_eq_false_iff, decide_eq_false_iff_not]
    exact .inl (by omega)
  rw [CodePoint.hexDigit?, hbelow (by decide), hbelow (by decide), hbelow (by decide)]
  rfl

theorem not_isAsciiBlank_of_hexDigit? {p : CodePoint} {d : Nat} (h : p.hexDigit? = some d) : ¬p.isAsciiBlank = true := by
  intro hblank
  rw [hexDigit?_of_isAsciiBlank hblank] at h
  cases h

theorem hexDigit?_lt {p : CodePoint} {d : Nat} (h : p.hexDigit? = some d) : d < 16 := by
  simp only [CodePoint.hexDigit?, CodePoint.within, Bool.and_eq_true, decide_eq_true_eq] at h
  split_ifs at h with h0 ha hA
  all_goals cases h
  · have hle : p.val ≤ 57 := h0.2
    omega
  · have hle : p.val ≤ 102 := ha.2
    omega
  · have hle : p.val ≤ 70 := hA.2
    omega

theorem spacedHex?_blank {p : CodePoint} (h : p.isAsciiBlank = true) (s : Text) :
    spacedHex? (p :: s) = spacedHex? s := by
  rw [spacedHex?.eq_def]
  exact if_pos h

theorem spacedHex?_pair {p : CodePoint} (h : ¬p.isAsciiBlank = true) (q : CodePoint) (s : Text) :
    spacedHex? (p :: q :: s) = (do
      let high ← p.hexDigit?
      let low ← q.hexDigit?
      return UInt8.ofNat (16 * high + low) :: (← spacedHex? s)) := by
  rw [spacedHex?, if_neg h]

/-- The bytes are half as many as the digits, and of the same number. -/
structure Packs (ds : List Nat) (raw : Bytes) : Prop where
  length_eq : ds.length = 2 * raw.length
  toNat_eq : raw.toNat = hexValue ds

theorem Packs.pair {ds : List Nat} {raw : Bytes} (h : Packs ds raw) {high low : Nat} (hhigh : high < 16)
    (hlow : low < 16) : Packs (high :: low :: ds) (UInt8.ofNat (16 * high + low) :: raw) where
  length_eq := by
    have hlength := h.length_eq
    simp only [List.length_cons]
    omega
  toNat_eq := by
    have hbyte : (UInt8.ofNat (16 * high + low)).toNat = 16 * high + low := by
      rw [UInt8.toNat_ofNat']
      exact Nat.mod_eq_of_lt (by omega)
    rw [Bytes.toNat_cons, hbyte, h.toNat_eq, hexValue_cons, hexValue_cons, List.length_cons, h.length_eq,
      Nat.pow_succ, Nat.pow_mul]
    ring

theorem Packs.denotes_iff {ds : List Nat} {raw : Bytes} (h : Packs ds raw) (a : Bytes) :
    Denotes ds a ↔ raw.length ≤ size ∧ a = Bytes.padLeft size raw := by
  have hlength : ds.length ≤ 2 * size ↔ raw.length ≤ size := by
    rw [h.length_eq]
    omega
  rw [Denotes, hlength]
  refine and_congr_right fun hle => ?_
  rw [Bytes.padLeft_eq_ofNat hle, h.toNat_eq]

theorem SpacedPairs.exists_bytes {s : Text} {ds : List Nat} (h : SpacedPairs s ds) :
    ∃ raw, spacedHex? s = some raw ∧ Packs ds raw := by
  induction h with
  | nil => exact ⟨[], rfl, rfl, rfl⟩
  | blank hp rest ih => rwa [spacedHex?_blank hp]
  | pair hp hq rest ih =>
    obtain ⟨raw, hraw, hpacks⟩ := ih
    refine ⟨_, ?_, hpacks.pair (hexDigit?_lt hp) (hexDigit?_lt hq)⟩
    rw [spacedHex?_pair (not_isAsciiBlank_of_hexDigit? hp), hp, hq, hraw]
    rfl

theorem exists_spacedPairs {s : Text} {raw : Bytes} (h : spacedHex? s = some raw) : ∃ ds, SpacedPairs s ds := by
  induction s using spacedHex?.induct generalizing raw with
  | case1 => exact ⟨[], .nil⟩
  | case2 p s hp ih =>
    rw [spacedHex?_blank hp] at h
    obtain ⟨ds, hds⟩ := ih h
    exact ⟨ds, .blank hp hds⟩
  | case3 p hp =>
    rw [spacedHex?, if_neg hp] at h
    cases h
  | case4 p hp q s ih =>
    simp only [spacedHex?_pair hp, Option.bind_eq_bind, Option.bind_eq_some_iff] at h
    obtain ⟨high, hhigh, low, hlow, rest, hrest, _⟩ := h
    obtain ⟨ds, hds⟩ := ih hrest
    exact ⟨_, .pair hhigh hlow hds⟩

/-- The text after one `0x`, if it begins with one. -/
def unmarked (s : Text) : Text := (Text.afterFront? "0x" s).getD s

/-- The text with a zero in front if it has an odd length. -/
def paired (s : Text) : Text := if s.length % 2 = 1 then CodePoint.ofChar '0' :: s else s

theorem ofText_eq (s : Text) : ofText s = match spacedHex? (paired (unmarked s)) with
    | none => .error (.addressText s)
    | some raw => if size < raw.length then .error (.addressTooLong raw.length) else .ok (Bytes.padLeft size raw) := rfl

theorem ofText_eq_ok_iff (s : Text) (a : Bytes) :
    ofText s = .ok a ↔ ∃ ds, SpacedPairs (paired (unmarked s)) ds ∧ Denotes ds a := by
  constructor
  · intro h
    cases hread : spacedHex? (paired (unmarked s)) with
    | none => rw [ofText_eq, hread] at h; cases h
    | some raw =>
      obtain ⟨ds, hds⟩ := exists_spacedPairs hread
      obtain ⟨raw', hread', hpacks⟩ := hds.exists_bytes
      -- The digits are packed into bytes in one way only, so these are the bytes that were read.
      cases hread.symm.trans hread'
      refine ⟨ds, hds, (hpacks.denotes_iff a).mpr ?_⟩
      simp only [ofText_eq, hread] at h
      split_ifs at h with hlong
      exact ⟨Nat.le_of_not_lt hlong, (Except.ok.inj h).symm⟩
  · rintro ⟨ds, hds, hdenotes⟩
    obtain ⟨raw, hread, hpacks⟩ := hds.exists_bytes
    obtain ⟨hle, rfl⟩ := (hpacks.denotes_iff a).mp hdenotes
    simp only [ofText_eq, hread, if_neg (Nat.not_lt.mpr hle)]

theorem Digits.spacedPairs {s : Text} {ds : List Nat} (h : Digits s ds) (heven : s.length % 2 = 0) : SpacedPairs s ds := by
  -- Two digits at a time, as the reader takes them.
  induction s using List.twoStepInduction generalizing ds with
  | nil =>
    cases ds with
    | nil => exact .nil
    | cons => cases h
  | singleton p => cases heven
  | cons_cons p q s ih _ =>
    match ds with
    | [] => cases h
    | [_] => cases h.length_eq
    | high :: low :: ds =>
      obtain ⟨hp, hrest⟩ := digits_cons.mp h
      obtain ⟨hq, hrest⟩ := digits_cons.mp hrest
      exact .pair hp hq (ih hrest (by simp only [List.length_cons] at heven; omega))

theorem SpacedPairs.digits {s : Text} {ds : List Nat} (h : SpacedPairs s ds) (hblank : ∀ p ∈ s, ¬p.isAsciiBlank = true) :
    Digits s ds := by
  induction h with
  | nil => exact digits_nil
  | blank hp => exact absurd hp (hblank _ List.mem_cons_self)
  | pair hp hq rest ih =>
    have hrest := ih fun p hp => hblank p (List.mem_cons_of_mem _ (List.mem_cons_of_mem _ hp))
    exact digits_cons.mpr ⟨hp, digits_cons.mpr ⟨hq, hrest⟩⟩

theorem length_paired_mod (s : Text) : (paired s).length % 2 = 0 := by
  rw [paired]
  split_ifs with h
  · rw [List.length_cons]
    omega
  · omega

theorem exists_digits_paired_iff (s : Text) (a : Bytes) :
    (∃ ds, Digits (paired s) ds ∧ Denotes ds a) ↔ ∃ ds, Digits s ds ∧ Denotes ds a := by
  rw [paired]
  split_ifs with hodd
  · constructor
    · rintro ⟨ds, hdigits, hdenotes⟩
      cases ds with
      | nil => cases hdigits
      | cons d ds =>
        obtain ⟨hd, hdigits⟩ := digits_cons.mp hdigits
        have hzero : d = 0 := Option.some.inj (hd.symm.trans rfl)
        rw [hzero, denotes_zero_cons (hdigits.length_eq ▸ hodd)] at hdenotes
        exact ⟨ds, hdigits, hdenotes⟩
    · rintro ⟨ds, hdigits, hdenotes⟩
      exact ⟨0 :: ds, digits_cons.mpr ⟨rfl, hdigits⟩, (denotes_zero_cons (hdigits.length_eq ▸ hodd) a).mpr hdenotes⟩
  · exact Iff.rfl

theorem isAsciiBlank_of_mem_paired {s : Text} (h : ∀ p ∈ s, ¬p.isAsciiBlank = true) :
    ∀ p ∈ paired s, ¬p.isAsciiBlank = true := by
  rw [paired]
  split_ifs
  · exact List.forall_mem_cons.mpr ⟨by decide, h⟩
  · exact h

/-- Digits alone are read as the address they denote. -/
theorem ofText_of_digits {s : Text} {ds : List Nat} (h : Digits (unmarked s) ds) {a : Bytes} (ha : Denotes ds a) :
    ofText s = .ok a := by
  obtain ⟨ds', hdigits, hdenotes⟩ := (exists_digits_paired_iff (unmarked s) a).mpr ⟨ds, h, ha⟩
  exact (ofText_eq_ok_iff s a).mpr ⟨ds', hdigits.spacedPairs (length_paired_mod _), hdenotes⟩

/-- The text is read if and only if it consists of at most sixteen digits, and as the address they denote. -/
def Exact (s : Text) : Prop := ∀ a, ofText s = .ok a ↔ ∃ ds, Digits (unmarked s) ds ∧ Denotes ds a

/-- The text holds a blank although it can be read. -/
def Gapped (s : Text) : Prop :=
  (∃ p ∈ unmarked s, p.isAsciiBlank = true) ∧ ∃ ds, SpacedPairs (paired (unmarked s)) ds ∧ ds.length ≤ 2 * size

theorem exact_iff (s : Text) : Exact s ↔ ¬Gapped s := by
  constructor
  · rintro hexact ⟨⟨p, hp, hblank⟩, ds, hds, hlength⟩
    obtain ⟨ds', hdigits, _⟩ := (hexact _).mp ((ofText_eq_ok_iff s _).mpr ⟨ds, hds, hlength, rfl⟩)
    obtain ⟨d, hd⟩ := hdigits.exists_of_mem hp
    exact not_isAsciiBlank_of_hexDigit? hd hblank
  · -- Without blanks the pairs that are read are the digits of the whole text.
    intro hgap a
    refine ⟨fun h => ?_, fun ⟨ds, hdigits, hdenotes⟩ => ofText_of_digits hdigits hdenotes⟩
    obtain ⟨ds, hds, hdenotes⟩ := (ofText_eq_ok_iff s a).mp h
    have hblank : ∀ p ∈ unmarked s, ¬p.isAsciiBlank = true := fun p hp hblank =>
      hgap ⟨⟨p, hp, hblank⟩, ds, hds, hdenotes.1⟩
    exact (exists_digits_paired_iff (unmarked s) a).mp ⟨ds, hds.digits (isAsciiBlank_of_mem_paired hblank), hdenotes⟩

def nibbles (bs : Bytes) : List Nat := bs.flatMap fun b => [b.toNat / 16, b.toNat % 16]

theorem digits_hex (bs : Bytes) : Digits (Bytes.hex bs) (nibbles bs) := by
  induction bs with
  | nil => exact digits_nil
  | cons b bs ih =>
    have hhigh := Bytes.hexDigit?_hexDigit (Bytes.highDigit_lt b)
    have hlow := Bytes.hexDigit?_hexDigit (Bytes.lowDigit_lt b)
    exact digits_cons.mpr ⟨hhigh, digits_cons.mpr ⟨hlow, ih⟩⟩

theorem packs_nibbles (bs : Bytes) : Packs (nibbles bs) bs := by
  induction bs with
  | nil => exact ⟨rfl, rfl⟩
  | cons b bs ih =>
    have h := ih.pair (Bytes.highDigit_lt b) (Bytes.lowDigit_lt b)
    rwa [Bytes.ofNat_digits] at h

theorem exists_digits_of_zeros {k : Nat} {t : Text} {ds : List Nat}
    (h : Digits (List.replicate k (CodePoint.ofChar '0') ++ t) ds) :
    ∃ ds', ds = List.replicate k 0 ++ ds' ∧ Digits t ds' := by
  induction k generalizing ds with
  | zero => exact ⟨ds, rfl, h⟩
  | succ k ih =>
    cases ds with
    | nil => cases h
    | cons d ds =>
      obtain ⟨hd, hrest⟩ := digits_cons.mp h
      obtain ⟨ds', rfl, hdigits⟩ := ih hrest
      have hzero : d = 0 := Option.some.inj (hd.symm.trans rfl)
      exact ⟨ds', by rw [hzero]; rfl, hdigits⟩

theorem unmarked_mark (s : Text) : unmarked (("0x" : Text) ++ s) = s := rfl

/-- The letter of the mark is no digit, so that no digits begin with the mark. -/
theorem unmarked_of_digits {s : Text} {ds : List Nat} (h : Digits s ds) : unmarked s = s := by
  rw [unmarked, Text.afterFront?]
  split_ifs with hfront
  · have hmark : CodePoint.ofChar 'x' ∈ Text.ofString "0x" := List.mem_cons_of_mem _ List.mem_cons_self
    rw [← hfront] at hmark
    have hmem := List.mem_of_mem_take hmark
    obtain ⟨d, hd⟩ := h.exists_of_mem hmem
    cases hd
  · rfl

/-- Every address is read from its digits, whatever zeros are left out in front, with the mark or without. -/
theorem ofText_hex {a : Bytes} (ha : a.length = size) {k : Nat} {t : Text}
    (ht : Bytes.hex a = List.replicate k (CodePoint.ofChar '0') ++ t) :
    ofText t = .ok a ∧ ofText (("0x" : Text) ++ t) = .ok a := by
  obtain ⟨ds, hds, hdigits⟩ := exists_digits_of_zeros (ht ▸ digits_hex a)
  have hpacks := packs_nibbles a
  have hdenotes : Denotes ds a := by
    have hlength : (List.replicate k 0 ++ ds).length = 2 * size := by rw [← hds, hpacks.length_eq, ha]
    rw [List.length_append] at hlength
    refine ⟨by omega, ?_⟩
    rw [← hexValue_zeros k ds, ← hds, ← hpacks.toNat_eq, ← Bytes.padLeft_eq_ofNat (Nat.le_of_eq ha), Bytes.padLeft, ha,
      Nat.sub_self]
    rfl
  exact ⟨ofText_of_digits ((unmarked_of_digits hdigits).symm ▸ hdigits) hdenotes,
    ofText_of_digits ((unmarked_mark t).symm ▸ hdigits) hdenotes⟩

/-- A text is read if and only if it consists of at most sixteen digits, unless it holds a blank and is read all the same,
since its digits stand in whole pairs; addresses are read from their own digits in any case. -/
theorem reading_exact_iff (s : Text) :
    (Exact s ↔ ¬Gapped s) ∧
      (∀ a, ofText s = .ok a ↔ ∃ ds, SpacedPairs (paired (unmarked s)) ds ∧ Denotes ds a) ∧
      ∀ a : Bytes, a.length = size → ∀ (k : Nat) (t : Text), Bytes.hex a = List.replicate k (CodePoint.ofChar '0') ++ t →
        ofText t = .ok a ∧ ofText (("0x" : Text) ++ t) = .ok a :=
  ⟨exact_iff s, ofText_eq_ok_iff s, fun _ ha _ _ ht => ofText_hex ha ht⟩

theorem reading_exact_iff_twelve_zeros :
    Exact "0x1Cf" ∧ ofText "1234" = .ok [0, 0, 0, 0, 0, 0, 0x12, 0x34] ∧
      ofText "0x1234" = .ok [0, 0, 0, 0, 0, 0, 0x12, 0x34] := by
  obtain ⟨hexact, _, hown⟩ := reading_exact_iff "0x1Cf"
  have hblank : ¬(unmarked "0x1Cf").any CodePoint.isAsciiBlank = true := Bool.false_ne_true
  exact ⟨hexact.mpr fun hgap => hblank (List.any_eq_true.mpr hgap.1), hown [0, 0, 0, 0, 0, 0, 0x12, 0x34] rfl 12 "1234" rfl⟩

/-- Blanks between two pairs are passed over. -/
theorem gapped_text_read : ofText "12  34" = .ok [0, 0, 0, 0, 0, 0, 0x12, 0x34] ∧ ¬Exact "12  34" := by
  refine ⟨rfl, fun hexact => ?_⟩
  obtain ⟨ds, hdigits, _⟩ := (hexact _).mp rfl
  obtain ⟨d, hd⟩ := hdigits.exists_of_mem (show CodePoint.ofChar ' ' ∈ unmarked "12  34" by decide)
  cases hd

end Signatory.Address
