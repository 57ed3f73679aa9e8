import Signatory.Json.Reader
import Signatory.Json.Writer
import Signatory.Proofs.Text.Basic

/-! Scalars of JSON text: one in front of a comma, of a closing bracket or of nothing is read as if it stood alone. -/

namespace Signatory.Json
set_option autoImplicit false

/-- What may follow a value. -/
inductive Ends : Text → Prop where
  | nil : Ends []
  | comma (rest : Text) : Ends (.ofChar ',' :: rest)
  | bracket (rest : Text) : Ends (.ofChar ']' :: rest)
  | brace (rest : Text) : Ends (.ofChar '}' :: rest)

/-- A token together with more of what follows it. -/
def followed {α : Type} (rest : Text) (r : α × Text) : α × Text := (r.1, r.2 ++ rest)

section

variable {rest : Text} (hrest : Ends rest)

include hrest

theorem spanDigits_of_ends : Text.spanDigits rest = ([], rest) := by
  cases hrest <;> rfl

theorem fraction_of_ends : fraction rest = ([], rest) := by
  cases hrest <;> rfl

theorem exponent?_of_ends : Binary64.scanDecimal?.exponent? rest = none := by
  cases hrest <;> rfl

theorem spanDigits_append (s : Text) : Text.spanDigits (s ++ rest) = followed rest (Text.spanDigits s) := by
  induction s with
  | nil => exact spanDigits_of_ends hrest
  | cons c s ih =>
    rw [List.cons_append, Text.spanDigits, Text.spanDigits, ih]
    cases c.digit? <;> rfl

theorem whole?_append (s : Text) : whole? (s ++ rest) = (whole? s).map (followed rest) := by
  unfold whole?
  rw [spanDigits_append hrest]
  cases s with
  | nil => rfl
  | cons c s => rcases Text.spanDigits (c :: s) with ⟨_ | ⟨_ | d, ds⟩, t⟩ <;> rfl

theorem fraction_append (s : Text) : fraction (s ++ rest) = followed rest (fraction s) := by
  cases s with
  | nil => exact fraction_of_ends hrest
  | cons p s =>
    simp only [List.cons_append, fraction]
    split
    · rw [spanDigits_append hrest]
      rcases Text.spanDigits s with ⟨_ | ⟨d, ds⟩, t⟩ <;> rfl
    · rfl

theorem exponent?_append (s : Text) : Binary64.scanDecimal?.exponent? (s ++ rest) =
    (Binary64.scanDecimal?.exponent? s).map (followed rest) := by
  cases s with
  | nil => exact exponent?_of_ends hrest
  | cons p s =>
    simp only [List.cons_append, Binary64.scanDecimal?.exponent?]
    split
    · cases s with
      | nil => cases hrest <;> rfl
      | cons q s =>
        simp only [List.cons_append]
        split
        · rw [spanDigits_append hrest]
          rcases Text.spanDigits s with ⟨_ | ⟨d, ds⟩, t⟩ <;> rfl
        split
        · rw [spanDigits_append hrest]
          rcases Text.spanDigits s with ⟨_ | ⟨d, ds⟩, t⟩ <;> rfl
        · rw [← List.cons_append, spanDigits_append hrest]
          rcases Text.spanDigits (q :: s) with ⟨_ | ⟨d, ds⟩, t⟩ <;> rfl
    · rfl

theorem unsigned?_append (negative : Bool) (s : Text) :
    unsigned? negative (s ++ rest) = (unsigned? negative s).map (followed rest) := by
  unfold unsigned?
  rw [whole?_append hrest]
  rcases whole? s with _ | ⟨whole, t⟩
  · rfl
  · simp only [Option.map_some, Option.bind_eq_bind, Option.bind_some, followed, fraction_append hrest,
      exponent?_append hrest]
    rcases fraction t with ⟨_ | ⟨d, ds⟩, t⟩ <;> rcases Binary64.scanDecimal?.exponent? t with _ | ⟨e, t⟩
    · simp only [Option.map_none]
      split <;> rfl
    all_goals rfl

/-- No word reaches into what ends it. -/
theorem afterFront?_append {w : Text} (hw : w.any (·.isOneOf [',', ']', '}']) = false) (s : Text) :
    Text.afterFront? w (s ++ rest) = (Text.afterFront? w s).map (· ++ rest) := by
  unfold Text.afterFront?
  by_cases hlength : w.length ≤ s.length
  · rw [List.take_append_of_le_length hlength, List.drop_append_of_le_length hlength]
    split <;> rfl
  · -- The word would have to go on into the rest, which begins with a mark that stands in no word.
    have hshort : s.take w.length ≠ w := by
      intro h
      have := congrArg List.length h
      rw [List.length_take] at this
      omega
    have hlong : (s ++ rest).take w.length ≠ w := by
      intro h
      obtain ⟨k, hk⟩ : ∃ k, w.length = s.length + (k + 1) := ⟨w.length - s.length - 1, by omega⟩
      rw [hk, List.take_length_add_append] at h
      cases rest with
      | nil =>
        have := congrArg List.length h
        rw [List.take_nil, List.append_nil] at this
        omega
      | cons p rest =>
        rw [List.take_succ_cons] at h
        have hp : p.isOneOf [',', ']', '}'] = true := by cases hrest <;> rfl
        have hmem : p ∈ w := h ▸ List.mem_append_right s List.mem_cons_self
        rw [List.any_eq_true.mpr ⟨p, hmem, hp⟩] at hw
        cases hw
    rw [if_neg hshort, if_neg hlong]
    rfl

theorem word?_append (s : Text) : word? (s ++ rest) = (word? s).map (followed rest) := by
  have hwords (ws : List (Text × Json)) (hws : ∀ w ∈ ws, w.1.any (·.isOneOf [',', ']', '}']) = false) :
      (ws.findSome? fun w => (Text.afterFront? w.1 (s ++ rest)).map fun t => (w.2, t)) =
        (ws.findSome? fun w => (Text.afterFront? w.1 s).map fun t => (w.2, t)).map (followed rest) := by
    induction ws with
    | nil => rfl
    | cons w ws ih =>
      rw [List.forall_mem_cons] at hws
      have hfront := afterFront?_append hrest hws.1 s
      rw [List.findSome?_cons, List.findSome?_cons, hfront, ih hws.2]
      cases Text.afterFront? w.1 s <;> rfl
  exact hwords _ (by decide)

/-- A scalar is read as if it stood alone. -/
theorem scalar?_append (s : Text) : scalar? (s ++ rest) = (scalar? s).map (followed rest) := by
  unfold scalar?
  rw [word?_append hrest]
  cases word? s with
  | some r => rfl
  | none =>
    rw [Option.map_none]
    cases s with
    | nil => cases hrest <;> rfl
    | cons p s =>
      simp only [List.cons_append]
      split
      · exact unsigned?_append hrest true s
      · exact unsigned?_append hrest false (p :: s)

end

/-- What a scalar may begin with: no blank, no quote and no bracket. -/
def isScalarStart (p : CodePoint) : Bool := !isBlank p && !p.isOneOf ['"', '[', ']', '{', '}']

theorem isScalarStart_of_digit? {p : CodePoint} {d : Nat} (h : p.digit? = some d) : isScalarStart p = true := by
  unfold CodePoint.digit? at h
  split at h
  · rename_i hrange
    rw [CodePoint.within, Bool.and_eq_true, decide_eq_true_eq, decide_eq_true_eq] at hrange
    have hlow : 48 ≤ p.val := hrange.1
    have hhigh : p.val ≤ 57 := hrange.2
    simp [isScalarStart, isBlank, CodePoint.isOneOf, CodePoint.is]
    omega
  · cases h

theorem start_of_whole? {s : Text} {r : List Nat × Text} (h : whole? s = some r) :
    ∃ p t, s = p :: t ∧ isScalarStart p = true := by
  cases s with
  | nil => cases h
  | cons p t =>
    refine ⟨p, t, rfl, ?_⟩
    cases hp : p.digit? with
    | some d => exact isScalarStart_of_digit? hp
    | none => simp [whole?, Text.spanDigits, hp] at h

theorem exists_of_word? {s : Text} {r : Json × Text} (h : word? s = some r) :
    ∃ w ∈ (["null", "true", "false", "NaN", "Infinity", "-Infinity"] : List Text), s = w ++ r.2 := by
  obtain ⟨w, hw, hr⟩ := List.exists_of_findSome?_eq_some h
  obtain ⟨t, ht, rfl⟩ := Option.map_eq_some_iff.mp hr
  refine ⟨w.1, List.mem_map_of_mem (f := Prod.fst) hw, ?_⟩
  unfold Text.afterFront? at ht
  split at ht
  · rename_i hfront
    obtain rfl := Option.some.inj ht
    exact (List.take_append_drop w.1.length s).symm.trans (congrArg (· ++ _) hfront)
  · cases ht

theorem start_of_word? {s : Text} {r : Json × Text} (h : word? s = some r) :
    ∃ p t, s = p :: t ∧ isScalarStart p = true := by
  obtain ⟨w, hw, rfl⟩ := exists_of_word? h
  simp only [List.mem_cons, List.not_mem_nil, or_false] at hw
  rcases hw with rfl | rfl | rfl | rfl | rfl | rfl <;> exact ⟨_, _, rfl, rfl⟩

theorem start_of_scalar? {s : Text} {r : Json × Text} (h : scalar? s = some r) :
    ∃ p t, s = p :: t ∧ isScalarStart p = true := by
  unfold scalar? at h
  split at h
  · rename_i hword
    exact start_of_word? hword
  · cases s with
    | nil => cases h
    | cons p s =>
      dsimp only at h
      split at h
      · rename_i hminus
        obtain rfl := CodePoint.is_iff.mp hminus
        exact ⟨_, s, rfl, rfl⟩
      · obtain ⟨_, hwhole, _⟩ := Option.bind_eq_some_iff.mp h
        exact start_of_whole? hwhole

theorem whole?_ofNat (n : Nat) : whole? (Text.ofNat n) = some (Text.digitsOf n, []) := by
  unfold whole?
  rw [Text.spanDigits_ofNat]
  by_cases hn : n = 0
  · subst hn
    rfl
  · obtain ⟨d, ds, hds⟩ := Text.exists_digitsOf hn
    rw [hds]
    rfl

theorem unsigned?_ofNat {n : Nat} (h : n < 10 ^ Text.Numeral.digitLimit) (negative : Bool) :
    unsigned? negative (Text.ofNat n) = some (.int (Text.Numeral.signed negative n), []) := by
  have hlimit : ¬Text.Numeral.digitLimit < (Text.digitsOf n).length :=
    Nat.not_lt.mpr (Text.length_digitsOf_le (by decide) h)
  have hnothing : Binary64.scanDecimal?.exponent? [] = none := rfl
  simp only [unsigned?, whole?_ofNat, Option.bind_eq_bind, Option.bind_some, fraction, hnothing, if_neg hlimit,
    Text.natOfDigits_digitsOf]

theorem word?_of_digit {p : CodePoint} {d : Nat} (hp : p.digit? = some d) (t : Text) :
    word? (p :: t) = none ∧ word? (.ofChar '-' :: p :: t) = none := by
  have hnone {s : Text} (h : ∀ r, word? s ≠ some r) : word? s = none := Option.eq_none_iff_forall_ne_some.mpr h
  constructor
  · apply hnone
    intro r hr
    obtain ⟨w, hw, heq⟩ := exists_of_word? hr
    simp only [List.mem_cons, List.not_mem_nil, or_false] at hw
    rcases hw with rfl | rfl | rfl | rfl | rfl | rfl <;> cases heq <;> cases hp
  · apply hnone
    intro r hr
    obtain ⟨w, hw, heq⟩ := exists_of_word? hr
    simp only [List.mem_cons, List.not_mem_nil, or_false] at hw
    -- Only the word for minus infinity begins with a sign, and no digit follows it there.
    rcases hw with rfl | rfl | rfl | rfl | rfl | rfl <;> cases heq
    cases hp

theorem scalar?_ofInt {i : Int} (h : i.natAbs < 10 ^ Text.Numeral.digitLimit) :
    scalar? (Text.ofInt i) = some (.int i, []) := by
  cases i with
  | ofNat n =>
    obtain ⟨p, t, d, ht, hp⟩ := Text.exists_ofNat n
    have hminus : p.is '-' = false := by
      rw [CodePoint.is_eq_false_iff]
      rintro rfl
      cases hp
    have hread := unsigned?_ofNat (n := n) h false
    rw [ht] at hread
    simp only [Text.ofInt, ht, scalar?, (word?_of_digit hp t).1, hminus, Bool.false_eq_true, if_false]
    exact hread
  | negSucc n =>
    obtain ⟨p, t, d, ht, hp⟩ := Text.exists_ofNat (n + 1)
    have hread := unsigned?_ofNat (n := n + 1) h true
    rw [Text.ofInt, scalar?, ht, (word?_of_digit hp t).2, ← ht]
    exact hread

theorem isAscii_renderDigits (n : Nat) (e : Int) : (Binary64.renderDigits n e).isAscii = true := by
  have hzeros (k : Nat) : (Binary64.zeros k).isAscii = true := by
    rw [Binary64.zeros, Text.isAscii, List.all_replicate]
    simp [CodePoint.val_ofChar]
  have htake (k : Nat) : Text.isAscii ((Text.ofNat n).take k) = true :=
    Text.isAscii_of_sublist (List.take_sublist k _) (Text.isAscii_ofNat n)
  have hdrop (k : Nat) : Text.isAscii ((Text.ofNat n).drop k) = true :=
    Text.isAscii_of_sublist (List.drop_sublist k _) (Text.isAscii_ofNat n)
  unfold Binary64.renderDigits
  dsimp only
  split
  · split
    · simp only [Text.isAscii_concat, List.all_cons, List.all_nil, hzeros, Text.isAscii_ofNat]
      rfl
    split
    · simp only [Text.isAscii_concat, List.all_cons, List.all_nil, hzeros, Text.isAscii_ofNat]
      rfl
    · simp only [Text.isAscii_concat, List.all_cons, List.all_nil, htake, hdrop]
      rfl
  · simp only [Text.isAscii_concat, List.all_cons, List.all_nil, htake, hdrop, Text.isAscii_ofNat]
    repeat' split
    all_goals rfl

theorem isAscii_renderDouble (x : Binary64) : x.render.isAscii = true := by
  unfold Binary64.render
  split
  · rfl
  · split <;> rfl
  · rename_i negative m q _
    have hsign (s : Text) (hs : s.isAscii = true) :
        Text.isAscii (if negative then .ofChar '-' :: s else s) = true := by
      split
      · exact hs
      · exact hs
    apply hsign
    split
    · rfl
    · exact isAscii_renderDigits _ _

theorem isAscii_renderFloat (x : Binary64) : (renderFloat x).isAscii = true := by
  unfold renderFloat
  split
  · rfl
  · split <;> rfl
  · exact isAscii_renderDouble x

end Signatory.Json
