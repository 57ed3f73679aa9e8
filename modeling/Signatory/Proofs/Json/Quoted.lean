import Mathlib.Data.List.Chain
import Signatory.Json.Reader
import Signatory.Json.Writer
import Signatory.Proofs.Text.Basic

/-! Strings of JSON text: what is written between quotes is read up to the closing quote, and as the same text unless
the two halves of a pair stand in it as two code points. -/

namespace Signatory.Json
set_option autoImplicit false

def highHalf (p : CodePoint) : CodePoint := ⟨0xD800 + (p.val - 0x10000) / 1024, by omega⟩

def lowHalf (p : CodePoint) : CodePoint := ⟨0xDC00 + (p.val - 0x10000) % 1024, by omega⟩

theorem val_highHalf (p : CodePoint) : (highHalf p).val = 0xD800 + (p.val - 0x10000) / 1024 := rfl

theorem val_lowHalf (p : CodePoint) : (lowHalf p).val = 0xDC00 + (p.val - 0x10000) % 1024 := rfl

theorem isHighSurrogate_highHalf (p : CodePoint) : (highHalf p).isHighSurrogate = true := by
  have hlt := p.isLt
  rw [CodePoint.isHighSurrogate, Bool.and_eq_true, decide_eq_true_eq, decide_eq_true_eq, val_highHalf]
  omega

theorem isLowSurrogate_lowHalf (p : CodePoint) : (lowHalf p).isLowSurrogate = true := by
  rw [CodePoint.isLowSurrogate, Bool.and_eq_true, decide_eq_true_eq, decide_eq_true_eq, val_lowHalf]
  omega

theorem joinPair_halves {p : CodePoint} (h : 0x10000 ≤ p.val) : joinPair (highHalf p) (lowHalf p) = p := by
  have hlt := p.isLt
  have hsum : (0x10000 + (0xD800 + (p.val - 0x10000) / 1024 - 0xD800) * 1024 +
      (0xDC00 + (p.val - 0x10000) % 1024 - 0xDC00)) % 0x110000 = p.val := by omega
  apply Fin.ext
  rw [joinPair, Fin.val_ofNat, val_highHalf, val_lowHalf, hsum]

/-- What a code point inside quotes spells. -/
def spelled (p : CodePoint) : List Spelled :=
  if p.val ∈ [8, 9, 10, 12, 13] ∨ (32 ≤ p.val ∧ p.val < 127) then [.plain p]
  else if p.val < 0x10000 then [.escaped p]
  else [.escaped (highHalf p), .escaped (lowHalf p)]

/-- Whether no half of a pair stands right before the other half: such two would be read as one code point. -/
def Unpaired (s : Text) : Prop := s.IsChain fun p q => ¬(p.isHighSurrogate = true ∧ q.isLowSurrogate = true)

theorem unpaired_of_isAscii {s : Text} (h : s.isAscii = true) : Unpaired s := by
  induction s with
  | nil => exact .nil
  | cons p s ih =>
    rw [Text.isAscii_cons, Bool.and_eq_true, decide_eq_true_eq] at h
    refine List.isChain_cons.mpr ⟨fun q _ hpair => ?_, ih h.2⟩
    have hhigh := hpair.1
    simp only [CodePoint.isHighSurrogate, Bool.and_eq_true, decide_eq_true_eq] at hhigh
    omega

theorem spell?_short {e q : CodePoint} (he : e.is 'u' = false) (hq : shortEscape? e = some q) (rest : Text) :
    spell? (.ofChar '\\' :: e :: rest) = (spell? rest).map fun r => (.plain q :: r.1, r.2) := by
  rw [spell?.eq_def]
  simp only [he, hq]
  cases spell? rest <;> rfl

theorem unit?_digitChar {n : Nat} (h : n < 0x10000) :
    unit? (.ofChar (Nat.digitChar (n / 4096))) (.ofChar (Nat.digitChar (n / 256 % 16)))
      (.ofChar (Nat.digitChar (n / 16 % 16))) (.ofChar (Nat.digitChar (n % 16))) = some ⟨n, by omega⟩ := by
  have hsum : ((n / 4096 * 16 + n / 256 % 16) * 16 + n / 16 % 16) * 16 + n % 16 = n := by omega
  simp only [unit?, CodePoint.hexDigit?_digitChar (show n / 4096 < 16 by omega),
    CodePoint.hexDigit?_digitChar (show n / 256 % 16 < 16 by omega),
    CodePoint.hexDigit?_digitChar (show n / 16 % 16 < 16 by omega),
    CodePoint.hexDigit?_digitChar (show n % 16 < 16 by omega), Option.bind_eq_bind, Option.bind_some, hsum,
    dif_pos (show n < 0x110000 by omega)]

theorem spell?_unit {n : Nat} (h : n < 0x10000) (rest : Text) : spell? (unitEscape n ++ rest) =
    (spell? rest).map fun r => (.escaped ⟨n, by omega⟩ :: r.1, r.2) := by
  have hmark : unitEscape n = .ofChar '\\' :: .ofChar 'u' :: Text.ofHex 4 n := rfl
  rw [hmark, Text.ofHex_four h]
  simp only [List.cons_append, List.nil_append]
  rw [spell?.eq_def]
  simp only [unit?_digitChar h]
  cases spell? rest <;> rfl

theorem spell?_plain {p : CodePoint} (hquote : p.is '"' = false) (hslash : p.is '\\' = false) (hp : 32 ≤ p.val)
    (rest : Text) : spell? (p :: rest) = (spell? rest).map fun r => (.plain p :: r.1, r.2) := by
  rw [spell?.eq_def]
  have hcontrol : ¬p.val < 32 := Nat.not_lt.mpr hp
  simp only [hquote, hslash, Bool.false_eq_true, if_false, if_neg hcontrol]
  cases spell? rest <;> rfl

/-- The code points with a short escape of their own. -/
def shortEscaped : List CodePoint := ['"', '\\', '\n', '\r', '\t', '\x0c', '\x08'].map .ofChar

theorem spell?_escapePoint (p : CodePoint) (rest : Text) :
    spell? (escapePoint p ++ rest) = (spell? rest).map fun r => (spelled p ++ r.1, r.2) := by
  by_cases hshort : p ∈ shortEscaped
  · simp only [shortEscaped, List.map_cons, List.map_nil, List.mem_cons, List.not_mem_nil, or_false] at hshort
    rcases hshort with rfl | rfl | rfl | rfl | rfl | rfl | rfl <;> exact spell?_short rfl rfl rest
  simp only [shortEscaped, List.map_cons, List.map_nil, List.mem_cons, List.not_mem_nil, or_false, not_or] at hshort
  obtain ⟨hquote, hslash, hn, hr, ht, hf, hb⟩ := hshort
  have hf' : p.val ≠ 12 := fun h => hf (Fin.ext h)
  have hb' : p.val ≠ 8 := fun h => hb (Fin.ext h)
  have hn' : p.val ≠ 10 := fun h => hn (Fin.ext h)
  have hr' : p.val ≠ 13 := fun h => hr (Fin.ext h)
  have ht' : p.val ≠ 9 := fun h => ht (Fin.ext h)
  rw [← CodePoint.is_eq_false_iff] at hquote hslash hn hr ht
  simp only [escapePoint, hquote, hslash, hn, hr, ht, hf', hb', Bool.false_eq_true, if_false]
  by_cases hplain : 32 ≤ p.val ∧ p.val < 127
  · rw [if_pos hplain, spelled, if_pos (Or.inr hplain)]
    exact spell?_plain hquote hslash hplain.1 rest
  have hspelled : ¬(p.val ∈ [8, 9, 10, 12, 13] ∨ (32 ≤ p.val ∧ p.val < 127)) := by
    simp [hb', ht', hn', hf', hr']
    omega
  rw [if_neg hplain, spelled, if_neg hspelled]
  by_cases hunit : p.val < 0x10000
  · rw [if_pos hunit, if_pos hunit, spell?_unit hunit]
    rfl
  · have hlt := p.isLt
    rw [if_neg hunit, if_neg hunit, List.append_assoc, spell?_unit (by omega), spell?_unit (by omega)]
    cases spell? rest <;> rfl

theorem spell?_quoted (s rest : Text) :
    spell? (s.flatMap escapePoint ++ .ofChar '"' :: rest) = some (s.flatMap spelled, rest) := by
  induction s with
  | nil =>
    rw [List.flatMap_nil, List.nil_append, spell?.eq_def]
    rfl
  | cons p s ih =>
    rw [List.flatMap_cons, List.append_assoc, spell?_escapePoint, ih]
    rfl

theorem joinPairs_plain (p : CodePoint) (ss : List Spelled) : joinPairs (.plain p :: ss) = p :: joinPairs ss := by
  rw [joinPairs]

theorem joinPairs_escaped {p : CodePoint} {ss : List Spelled}
    (h : ∀ q, ss.head? = some (.escaped q) → ¬(p.isHighSurrogate = true ∧ q.isLowSurrogate = true)) :
    joinPairs (.escaped p :: ss) = p :: joinPairs ss := by
  rcases ss with _ | ⟨q | q, ss⟩
  · rfl
  · rw [joinPairs_plain, joinPairs]
  · have hpair : ¬(p.isHighSurrogate && q.isLowSurrogate) = true := by
      rw [Bool.and_eq_true]
      exact h q rfl
    rw [joinPairs, if_neg hpair]

/-- The first half of a pair, or the code point itself. -/
theorem head?_spelled {p q : CodePoint} {ss : List Spelled} (h : (spelled p ++ ss).head? = some (.escaped q)) :
    q = p ∨ q.isHighSurrogate = true := by
  unfold spelled at h
  split at h
  · cases h
  split at h
  · cases h
    exact .inl rfl
  · cases h
    exact .inr (isHighSurrogate_highHalf p)

theorem joinPairs_spelled {p : CodePoint} {ss : List Spelled}
    (h : ∀ q, ss.head? = some (.escaped q) → ¬(p.isHighSurrogate = true ∧ q.isLowSurrogate = true)) :
    joinPairs (spelled p ++ ss) = p :: joinPairs ss := by
  unfold spelled
  split
  · exact joinPairs_plain p ss
  split
  · exact joinPairs_escaped h
  · rename_i hwide
    have hpair : ((highHalf p).isHighSurrogate && (lowHalf p).isLowSurrogate) = true := by
      rw [isHighSurrogate_highHalf, isLowSurrogate_lowHalf]
      rfl
    rw [List.cons_append, List.singleton_append, joinPairs, if_pos hpair, joinPair_halves (Nat.le_of_not_lt hwide)]

theorem joinPairs_flatMap {s : Text} (h : Unpaired s) : joinPairs (s.flatMap spelled) = s := by
  induction s with
  | nil => rfl
  | cons p s ih =>
    obtain ⟨hnext, hrest⟩ := List.isChain_cons.mp h
    rw [List.flatMap_cons, joinPairs_spelled, ih hrest]
    -- The next escape writes the next code point, or the first half of a pair.
    intro q hq
    cases s with
    | nil => cases hq
    | cons r s =>
      rcases head?_spelled hq with rfl | hhigh
      · exact hnext q rfl
      · simp only [CodePoint.isHighSurrogate, Bool.and_eq_true, decide_eq_true_eq] at hhigh
        simp only [CodePoint.isLowSurrogate, Bool.and_eq_true, decide_eq_true_eq]
        omega

theorem string?_quoted {s : Text} (h : Unpaired s) (rest : Text) :
    string? (s.flatMap escapePoint ++ .ofChar '"' :: rest) = some (s, rest) := by
  simp only [string?, spell?_quoted, Option.bind_eq_bind, Option.bind_some, joinPairs_flatMap h]
  rfl

theorem isAscii_unitEscape {n : Nat} (h : n < 0x10000) : (unitEscape n).isAscii = true := by
  have hhex := Text.isAscii_ofHex_four h
  rw [unitEscape, Text.isAscii_append, hhex]
  rfl

theorem isAscii_escapePoint (p : CodePoint) : (escapePoint p).isAscii = true := by
  have hlt := p.isLt
  unfold escapePoint
  iterate 7
    split
    · rfl
  split
  · rename_i hplain
    exact (Text.isAscii_cons p []).trans (by simp [Text.isAscii]; omega)
  split
  · rename_i hunit
    exact isAscii_unitEscape hunit
  · rw [Text.isAscii_append, isAscii_unitEscape (by omega), isAscii_unitEscape (by omega)]
    rfl

theorem isAscii_quote (s : Text) : (quote s).isAscii = true := by
  have hbody : Text.isAscii (s.flatMap escapePoint) = true := by
    rw [List.flatMap_def, Text.isAscii_flatten, List.all_map, List.all_eq_true]
    exact fun p _ => isAscii_escapePoint p
  rw [quote, Text.isAscii_append, Text.isAscii_cons, hbody]
  rfl

end Signatory.Json
