import Signatory.Proofs.Binary64.Decimal
import Signatory.Proofs.Json.RoundTrip

/-! Doubles in JSON text: the text of a double, in whichever layout, is read as that double. So all values come back as
they went that can stand in JSON text at all. -/

namespace Signatory
set_option autoImplicit false

namespace Text

/-- A text of digits with these values. -/
def Spells (s : Text) (ds : List Nat) : Prop := List.Forall₂ (fun p d => p.digit? = some d) s ds

theorem spells_ofNat (n : Nat) : Spells (ofNat n) (digitsOf n) := by
  rw [Spells, ofNat, digitsOf, List.forall₂_map_left_iff, List.forall₂_map_right_iff, List.forall₂_same]
  intro c hc
  exact CodePoint.digit?_of_isDigit (Nat.isDigit_of_mem_toDigits (by decide) (by decide) hc)

theorem spells_zeros (k : Nat) : Spells (Binary64.zeros k) (List.replicate k 0) := by
  induction k with
  | zero => exact .nil
  | succ k ih => exact .cons rfl ih

theorem Spells.spanDigits {s : Text} {ds : List Nat} (h : Spells s ds) {rest : Text}
    (hrest : Text.spanDigits rest = ([], rest)) : Text.spanDigits (s ++ rest) = (ds, rest) := by
  induction h with
  | nil => exact hrest
  | cons hp _ ih => rw [List.cons_append, Text.spanDigits, hp, ih]

theorem natOfDigits_append (ds es : List Nat) (acc : Nat) :
    natOfDigits acc (ds ++ es) = natOfDigits (natOfDigits acc ds) es := List.foldl_append

theorem natOfDigits_zeros (k acc : Nat) : natOfDigits acc (List.replicate k 0) = acc * 10 ^ k := by
  induction k generalizing acc with
  | zero => simp [natOfDigits]
  | succ k ih =>
    rw [List.replicate_succ, natOfDigits, List.foldl_cons]
    have h := ih (10 * acc + 0)
    rw [natOfDigits] at h
    rw [h, pow_succ]
    ring

end Text

namespace Json

theorem whole?_of_spells {s rest : Text} {d : Nat} {ds : List Nat} (h : Text.Spells s ((d + 1) :: ds))
    (hrest : Text.spanDigits rest = ([], rest)) : whole? (s ++ rest) = some ((d + 1) :: ds, rest) := by
  unfold whole?
  rw [h.spanDigits hrest]
  rfl

theorem fraction_of_spells {s rest : Text} {d : Nat} {ds : List Nat} (h : Text.Spells s (d :: ds))
    (hrest : Text.spanDigits rest = ([], rest)) : fraction (.ofChar '.' :: (s ++ rest)) = (d :: ds, rest) := by
  have hpoint : (CodePoint.ofChar '.').is '.' = true := rfl
  simp only [fraction, hpoint, if_true, h.spanDigits hrest]

theorem exponent?_of_spells {t : Text} {d : Nat} {ds : List Nat} (h : Text.Spells t (d :: ds)) (negative : Bool) :
    Binary64.scanDecimal?.exponent? ((if negative then "e-" else "e+" : Text) ++ t) =
      some (if negative then -(Text.natOfDigits 0 (d :: ds) : Int) else Text.natOfDigits 0 (d :: ds), []) := by
  have hspan : Text.spanDigits (t ++ []) = (d :: ds, []) := h.spanDigits rfl
  rw [List.append_nil] at hspan
  have hmark : (CodePoint.ofChar 'e').isOneOf ['e', 'E'] = true := rfl
  cases negative with
  | true =>
    change Binary64.scanDecimal?.exponent? (.ofChar 'e' :: .ofChar '-' :: t) = _
    have hminus : (CodePoint.ofChar '-').is '-' = true := rfl
    simp only [Binary64.scanDecimal?.exponent?, hmark, hminus, if_true, hspan]
    rfl
  | false =>
    change Binary64.scanDecimal?.exponent? (.ofChar 'e' :: .ofChar '+' :: t) = _
    have hminus : (CodePoint.ofChar '+').is '-' = false := rfl
    have hplus : (CodePoint.ofChar '+').is '+' = true := rfl
    simp only [Binary64.scanDecimal?.exponent?, hmark, hminus, hplus, Bool.false_eq_true, if_true, if_false, hspan]
    rfl

/-- The power of ten behind a numeral, of two digits at least. -/
def powerText (k : Int) : Text :=
  (if k < 0 then "e-" else "e+" : Text) ++ ((if k.natAbs < 10 then "0" else [] : Text) ++ Text.ofNat k.natAbs)

theorem exponent?_powerText (k : Int) : Binary64.scanDecimal?.exponent? (powerText k) = some (k, []) := by
  obtain ⟨d, ds, hspells, hvalue⟩ : ∃ d ds,
      Text.Spells ((if k.natAbs < 10 then "0" else [] : Text) ++ Text.ofNat k.natAbs) (d :: ds) ∧
        Text.natOfDigits 0 (d :: ds) = k.natAbs := by
    have hdigits := Text.spells_ofNat k.natAbs
    have hvalue := Text.natOfDigits_digitsOf k.natAbs
    split
    · exact ⟨0, _, .cons rfl hdigits, hvalue⟩
    · have hne : Text.digitsOf k.natAbs ≠ [] := by simp [Text.digitsOf]
      obtain ⟨d, ds, hfront⟩ := List.exists_cons_of_ne_nil hne
      exact ⟨d, ds, hfront ▸ hdigits, hfront ▸ hvalue⟩
  have hread := exponent?_of_spells hspells (decide (k < 0))
  simp only [decide_eq_true_eq] at hread
  rw [powerText, hread, hvalue]
  congr 2
  split <;> omega

theorem unsigned?_of_fraction {s rest : Text} {whole places : List Nat} {d : Nat}
    (hwhole : whole? s = some (whole, rest)) (hfraction : fraction rest = (d :: places, [])) (negative : Bool) :
    unsigned? negative s = some (.float (Binary64.ofDecimal negative (Text.natOfDigits 0 (whole ++ d :: places))
      (-((d :: places).length : Int))), []) := by
  have hnothing : Binary64.scanDecimal?.exponent? [] = none := rfl
  simp only [unsigned?, hwhole, Option.bind_eq_bind, Option.bind_some, hfraction, hnothing, Binary64.ofScanned,
    zero_sub]

theorem unsigned?_of_exponent {s rest tail : Text} {whole places : List Nat} {e : Int}
    (hwhole : whole? s = some (whole, rest)) (hfraction : fraction rest = (places, tail))
    (hexponent : Binary64.scanDecimal?.exponent? tail = some (e, [])) (negative : Bool) :
    unsigned? negative s = some (.float (Binary64.ofDecimal negative (Text.natOfDigits 0 (whole ++ places))
      (e - places.length)), []) := by
  cases places <;>
    simp only [unsigned?, hwhole, Option.bind_eq_bind, Option.bind_some, hfraction, hexponent, Binary64.ofScanned]

open Binary64 (renderDigits zeros)

theorem exists_digits {n : Nat} (hn : n ≠ 0) : ∃ d ds, Text.digitsOf n = (d + 1) :: ds ∧
    (Text.ofNat n).length = ds.length + 1 := by
  obtain ⟨d, ds, hdigits⟩ := Text.exists_digitsOf hn
  refine ⟨d, ds, hdigits, ?_⟩
  rw [← Text.length_digitsOf, hdigits, List.length_cons]

/-- With nothing before the point, as many zeros stand behind it as the point is to the left of the digits. -/
theorem unsigned?_below_one {n k : Nat} {e : Int} (hn : n ≠ 0) (hpoint : (Text.ofNat n).length + e = -(k : Int))
    (negative : Bool) : unsigned? negative (Text.concat ["0.", zeros k, Text.ofNat n]) =
      some (.float (Binary64.ofDecimal negative n e), []) := by
  obtain ⟨d, ds, hfront, hlength⟩ := exists_digits hn
  have hspells : Text.Spells (zeros k ++ Text.ofNat n) (List.replicate k 0 ++ Text.digitsOf n) :=
    List.rel_append (Text.spells_zeros k) (Text.spells_ofNat n)
  obtain ⟨d', ds', hdigits⟩ : ∃ d' ds', List.replicate k 0 ++ Text.digitsOf n = d' :: ds' :=
    List.exists_cons_of_ne_nil (by simp [hfront])
  have htext : Text.concat ["0.", zeros k, Text.ofNat n] = .ofChar '0' :: .ofChar '.' :: (zeros k ++ Text.ofNat n ++ []) := by
    simp only [Text.concat, List.flatten_cons, List.flatten_nil, List.append_nil]
    rfl
  have hwhole : whole? (Text.concat ["0.", zeros k, Text.ofNat n]) = some ([0], .ofChar '.' :: (zeros k ++ Text.ofNat n ++ [])) := by
    rw [htext]
    rfl
  have hvalue : Text.natOfDigits 0 ([0] ++ (List.replicate k 0 ++ Text.digitsOf n)) = n := by
    rw [Text.natOfDigits_append, Text.natOfDigits_append, Text.natOfDigits_zeros]
    exact (congrArg (Text.natOfDigits · _) (Nat.zero_mul _)).trans (Text.natOfDigits_digitsOf n)
  rw [hdigits] at hspells
  rw [unsigned?_of_fraction hwhole (fraction_of_spells hspells rfl), ← hdigits, hvalue, List.length_append,
    List.length_replicate, Text.length_digitsOf]
  congr 4
  omega

/-- With nothing behind the point but a zero, zeros fill up the digits to the point. -/
theorem unsigned?_integral {n k : Nat} (hn : n ≠ 0) (negative : Bool) :
    unsigned? negative (Text.concat [Text.ofNat n, zeros k, ".0"]) = some (.float (Binary64.ofDecimal negative n k), []) := by
  obtain ⟨d, ds, hfront, _⟩ := exists_digits hn
  have hspells : Text.Spells (Text.ofNat n ++ zeros k) (Text.digitsOf n ++ List.replicate k 0) :=
    List.rel_append (Text.spells_ofNat n) (Text.spells_zeros k)
  have htext : Text.concat [Text.ofNat n, zeros k, ".0"] = Text.ofNat n ++ zeros k ++ (".0" : Text) := by
    simp only [Text.concat, List.flatten_cons, List.flatten_nil, List.append_nil, List.append_assoc]
  have hvalue : Text.natOfDigits 0 (Text.digitsOf n ++ List.replicate k 0 ++ [0]) = n * 10 ^ (k + 1) := by
    rw [Text.natOfDigits_append, Text.natOfDigits_append, Text.natOfDigits_zeros, Text.natOfDigits_digitsOf, pow_succ]
    simp only [Text.natOfDigits, List.foldl_cons, List.foldl_nil]
    ring
  have hsame : (n * 10 ^ (k : Int) : ℚ) = (n * 10 ^ (k + 1) : Nat) * 10 ^ (-1 : Int) := by
    push_cast
    rw [zpow_natCast, zpow_neg_one]
    ring
  rw [hfront, List.cons_append] at hspells hvalue
  rw [htext, unsigned?_of_fraction (whole?_of_spells hspells rfl) (show fraction (".0" : Text) = ([0], []) from rfl),
    hvalue, Binary64.ofDecimal_congr hn hsame]
  rfl

/-- The digits of a number, parted. -/
theorem spells_parts {n k : Nat} (hk : 0 < k) (hless : k < (Text.ofNat n).length) (hn : n ≠ 0) :
    ∃ d ds d' ds', Text.Spells ((Text.ofNat n).take k) ((d + 1) :: ds) ∧ Text.Spells ((Text.ofNat n).drop k) (d' :: ds') ∧
      (d + 1) :: ds ++ d' :: ds' = Text.digitsOf n := by
  obtain ⟨d, ds, hfront, hlength⟩ := exists_digits hn
  obtain ⟨j, rfl⟩ : ∃ j, k = j + 1 := ⟨k - 1, by omega⟩
  obtain ⟨d', ds', hback⟩ : ∃ d' ds', (Text.digitsOf n).drop (j + 1) = d' :: ds' :=
    List.exists_cons_of_ne_nil fun hnil => by
      have := List.drop_eq_nil_iff.mp hnil
      rw [Text.length_digitsOf] at this
      omega
  have htake := List.forall₂_take (j + 1) (Text.spells_ofNat n)
  have hdrop := List.forall₂_drop (j + 1) (Text.spells_ofNat n)
  have hjoin := List.take_append_drop (j + 1) (Text.digitsOf n)
  rw [hback] at hdrop hjoin
  rw [hfront, List.take_succ_cons] at htake hjoin
  exact ⟨d, ds.take j, d', ds', htake, hdrop, hfront ▸ hjoin⟩

/-- The point stands among the digits. -/
theorem unsigned?_split {n k : Nat} (hk : 0 < k) (hless : k < (Text.ofNat n).length) (hn : n ≠ 0) (negative : Bool) :
    unsigned? negative (Text.concat [(Text.ofNat n).take k, ".", (Text.ofNat n).drop k]) =
      some (.float (Binary64.ofDecimal negative n (k - (Text.ofNat n).length)), []) := by
  obtain ⟨d, ds, d', ds', hfront, hback, hjoin⟩ := spells_parts hk hless hn
  have htext : Text.concat [(Text.ofNat n).take k, ".", (Text.ofNat n).drop k] =
      (Text.ofNat n).take k ++ .ofChar '.' :: ((Text.ofNat n).drop k ++ []) := by
    simp only [Text.concat, List.flatten_cons, List.flatten_nil]
    rfl
  have hlength : (d' :: ds').length = (Text.ofNat n).length - k := by
    rw [← hback.length_eq, List.length_drop]
  rw [htext, unsigned?_of_fraction (whole?_of_spells hfront rfl) (fraction_of_spells hback rfl), hjoin,
    Text.natOfDigits_digitsOf, hlength]
  congr 4
  omega

/-- One digit before the point, and a power of ten. -/
theorem unsigned?_scientific {n : Nat} (hn : n ≠ 0) (k : Int) (negative : Bool) :
    unsigned? negative (Text.concat [(Text.ofNat n).take 1, if (Text.ofNat n).length = 1 then [] else ".",
      (Text.ofNat n).drop 1, powerText k]) =
      some (.float (Binary64.ofDecimal negative n (k + 1 - (Text.ofNat n).length)), []) := by
  have hspan : Text.spanDigits (powerText k) = ([], powerText k) := by
    unfold powerText
    split <;> rfl
  have hnone : fraction (powerText k) = ([], powerText k) := by
    unfold powerText
    split <;> rfl
  obtain ⟨d, ds, hdigits, hlength⟩ := exists_digits hn
  by_cases hone : (Text.ofNat n).length = 1
  · have htext : Text.concat [(Text.ofNat n).take 1, if (Text.ofNat n).length = 1 then [] else ".",
        (Text.ofNat n).drop 1, powerText k] = Text.ofNat n ++ powerText k := by
      rw [if_pos hone, List.take_of_length_le hone.le, List.drop_of_length_le hone.le]
      simp only [Text.concat, List.flatten_cons, List.flatten_nil, List.nil_append, List.append_nil]
    have hspells := hdigits ▸ Text.spells_ofNat n
    rw [htext, unsigned?_of_exponent (whole?_of_spells hspells hspan) hnone (exponent?_powerText k), List.append_nil,
      ← hdigits, Text.natOfDigits_digitsOf, hone]
    congr 4
    simp
  · obtain ⟨d, ds, d', ds', hfront, hback, hjoin⟩ := spells_parts (n := n) one_pos (by omega) hn
    have htext : Text.concat [(Text.ofNat n).take 1, if (Text.ofNat n).length = 1 then [] else ".",
        (Text.ofNat n).drop 1, powerText k] =
        (Text.ofNat n).take 1 ++ .ofChar '.' :: ((Text.ofNat n).drop 1 ++ powerText k) := by
      rw [if_neg hone]
      simp only [Text.concat, List.flatten_cons, List.flatten_nil, List.append_nil]
      rfl
    have hrest : (d' :: ds').length = (Text.ofNat n).length - 1 := by
      rw [← hback.length_eq, List.length_drop]
    rw [htext, unsigned?_of_exponent (whole?_of_spells hfront rfl) (fraction_of_spells hback hspan)
      (exponent?_powerText k), hjoin, Text.natOfDigits_digitsOf, hrest]
    congr 4
    omega

theorem unsigned?_renderDigits {n : Nat} (hn : n ≠ 0) (e : Int) (negative : Bool) :
    unsigned? negative (renderDigits n e) = some (.float (Binary64.ofDecimal negative n e), []) := by
  obtain ⟨_, _, _, hlength⟩ := exists_digits hn
  unfold renderDigits
  dsimp only
  split
  · split
    · rename_i hpoint
      exact unsigned?_below_one hn (by omega) negative
    split
    · rename_i hpoint
      rw [show (Text.ofNat n).length + e - (Text.ofNat n).length = e by ring, unsigned?_integral hn,
        Int.toNat_of_nonneg (by omega)]
    · rename_i hpoint
      rw [unsigned?_split (by omega) (by omega) hn]
      congr 4
      omega
  · have hscientific := unsigned?_scientific hn ((Text.ofNat n).length + e - 1) negative
    rw [show (Text.ofNat n).length + e - 1 + 1 - (Text.ofNat n).length = e by ring] at hscientific
    rw [← hscientific, powerText]
    simp only [Text.concat, List.flatten_cons, List.flatten_nil, List.append_nil]

theorem exists_of_unsigned? {negative : Bool} {s : Text} {r : Json × Text} (h : unsigned? negative s = some r) :
    ∃ p t d, s = p :: t ∧ p.digit? = some d := by
  obtain ⟨_, hwhole, _⟩ := Option.bind_eq_some_iff.mp h
  cases s with
  | nil => cases hwhole
  | cons p t =>
    cases hp : p.digit? with
    | some d => exact ⟨p, t, d, rfl, hp⟩
    | none => simp [whole?, Text.spanDigits, hp] at hwhole

theorem scalar?_of_unsigned? {negative : Bool} {s : Text} {r : Json × Text} (h : unsigned? negative s = some r) :
    scalar? (if negative then .ofChar '-' :: s else s) = some r := by
  obtain ⟨p, t, d, rfl, hp⟩ := exists_of_unsigned? h
  obtain ⟨hword, hword'⟩ := word?_of_digit hp t
  cases negative with
  | true =>
    simp only [if_true, scalar?, hword']
    exact h
  | false =>
    have hminus : p.is '-' = false := by
      rw [CodePoint.is_eq_false_iff]
      rintro rfl
      cases hp
    simp only [Bool.false_eq_true, if_false, scalar?, hword, hminus]
    exact h

/-- The text of a double is read as that double, whatever it is. -/
theorem scalar?_renderFloat (x : Binary64) : scalar? (renderFloat x) = some (.float x, []) := by
  cases hx : x.value with
  | nan =>
    rw [renderFloat, hx]
    exact congrArg (fun y => some (Json.float y, [])) (Binary64.eq_nan hx)
  | infinite negative =>
    rw [renderFloat, hx, ← Binary64.eq_infinity hx]
    cases negative <;> rfl
  | finite negative m q =>
    have hread : unsigned? negative (if m = 0 then "0.0" else
        renderDigits (Binary64.shortest x negative m q).1 (Binary64.shortest x negative m q).2 : Text) =
          some (.float x, []) := by
      split
      · rename_i hm
        subst hm
        rw [← Binary64.ofRatio_eq_zero hx]
        cases negative <;> rfl
      · rename_i hm
        obtain ⟨hn, hshortest⟩ := Binary64.shortest_reads hx (Nat.pos_of_ne_zero hm)
        rw [unsigned?_renderDigits hn, hshortest]
    simp only [renderFloat, Binary64.render, hx]
    exact scalar?_of_unsigned? hread

/-- Integers have as many digits as text may have, no text breaks a pair into its halves, and the keys of an object are
distinct. -/
inductive WellFormed : Json → Prop where
  | null : WellFormed null
  | bool (b : Bool) : WellFormed (bool b)
  | int {i : Int} : i.natAbs < 10 ^ Text.Numeral.digitLimit → WellFormed (int i)
  | float (x : Binary64) : WellFormed (float x)
  | text {s : Text} : Unpaired s → WellFormed (text s)
  | list {vs : List Json} : (∀ v ∈ vs, WellFormed v) → WellFormed (list vs)
  | object {fs : List (Text × Json)} : (Entries.keys fs).Nodup → (∀ f ∈ fs, Unpaired f.1) →
      (∀ f ∈ fs, WellFormed f.2) → WellFormed (object fs)

theorem WellFormed.portable {v : Json} (h : v.WellFormed) : v.Portable := by
  induction h with
  | null => exact .null
  | bool b => exact .bool b
  | int hi => exact .int hi
  | float x => exact .float (scalar?_renderFloat x)
  | text hs => exact .text hs
  | list _ ih => exact .list ih
  | object hnodup hkeys _ ih => exact .object hnodup hkeys ih

/-- A text without surrogates breaks no pair. -/
theorem unpaired_of_isSurrogate {s : Text} (h : ∀ p ∈ s, p.isSurrogate = false) : Unpaired s := by
  induction s with
  | nil => exact .nil
  | cons p s ih =>
    rw [List.forall_mem_cons] at h
    refine List.isChain_cons.mpr ⟨fun q _ hpair => ?_, ih h.2⟩
    have hhigh := hpair.1
    have hnone := h.1
    simp only [CodePoint.isHighSurrogate, CodePoint.isSurrogate, Bool.and_eq_true, Bool.and_eq_false_iff,
      decide_eq_true_eq, decide_eq_false_iff_not] at hhigh hnone
    omega

end Json

end Signatory
