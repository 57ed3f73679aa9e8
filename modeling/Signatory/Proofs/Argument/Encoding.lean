import Signatory.Proofs.Argument
import Signatory.Proofs.Json.Double
import Signatory.Proofs.Json.Reordered

/-! What the bytes of an argument tell: the value up to the order of fields, no more and no less. Arguments that are
written one by one and joined by commas in brackets are the text of their list. -/

namespace Signatory

namespace Text.Utf8
set_option autoImplicit false

theorem encode_append (s t : Text) : encode (s ++ t) = encode s ++ encode t := List.flatMap_append

theorem encode_join (separator : Text) (parts : List Text) :
    encode (Text.join separator parts) = (encode separator).intercalate (parts.map encode) := by
  induction parts with
  | nil => rfl
  | cons s parts ih =>
    cases parts with
    | nil => rw [join_singleton, List.map_singleton, List.intercalate_singleton]
    | cons t parts =>
      rw [List.map_cons] at ih
      rw [join_cons_cons, encode_append, encode_append, ih, List.map_cons, List.map_cons, List.intercalate_cons_cons,
        List.append_assoc]

end Text.Utf8

namespace Argument
set_option autoImplicit false
open Outcome

/-- A value with a type, and with what its type demands, that can stand in JSON text. -/
structure Sound (v : Json) : Prop where
  wellFormed : v.WellFormed
  typed : Typed v

theorem Sound.portable {v : Json} (h : Sound v) : v.Portable := h.wellFormed.portable

theorem Sound.encode_eq {v : Json} (h : Sound v) : encode v = .ok (Text.Utf8.encode v.render) :=
  h.typed.encode_eq h.portable.isWritable

theorem encode_eq_of_reordered {v w : Json} (hv : v.Portable) (hw : w.Portable) (h : Json.Reordered v w) :
    encode v = encode w := by
  have hcanonical := (Json.reordered_iff hv).mp h
  calc encode v = encode v.canonical := (encode_canonical hv).symm
    _ = encode w.canonical := by rw [hcanonical]
    _ = encode w := encode_canonical hw

/-- Both are read from the same bytes, and what is read is the canonical form of either. -/
theorem reordered_of_encode {v w : Json} (hv : v.Portable) (hw : w.Portable) {b : Bytes} (hb : encode v = .ok b)
    (hb' : encode w = .ok b) : Json.Reordered v w := by
  have hread := decode_of_encode hv hb
  rw [decode_of_encode hw hb'] at hread
  apply (Json.reordered_iff hv).mpr
  exact (Except.ok.inj hread).symm

theorem encode_eq_iff {v w : Json} (hv : Sound v) (hw : Sound w) : encode v = encode w ↔ Json.Reordered v w := by
  constructor
  · intro h
    have hb := hv.encode_eq
    exact reordered_of_encode hv.portable hw.portable hb (h ▸ hb)
  · exact encode_eq_of_reordered hv.portable hw.portable

theorem decode_encode {v : Json} (h : Sound v) : ∃ b u, encode v = .ok b ∧ decode b = .ok u ∧ Json.Reordered v u := by
  have hb := h.encode_eq
  exact ⟨_, v.canonical, hb, decode_of_encode h.portable hb, Json.reordered_canonical v⟩

theorem mapM_encode {vs : List Json} (h : ∀ v ∈ vs, Sound v) :
    vs.mapM encode = .ok (vs.map fun v => Text.Utf8.encode v.render) := by
  induction vs with
  | nil => rfl
  | cons v vs ih =>
    rw [List.forall_mem_cons] at h
    rw [List.mapM_cons, h.1.encode_eq, ih h.2]
    rfl

/-- Encodings joined by commas, in brackets, are the bytes of the list. -/
theorem bracketed_encodings (vs : List Json) :
    [0x5B] ++ List.intercalate [0x2C] (vs.map fun v => Text.Utf8.encode v.render) ++ [0x5D] =
      Text.Utf8.encode (Json.list vs).render := by
  have hrender : (Json.list vs).render = [.ofChar '['] ++ Text.join "," (vs.map Json.render) ++ [.ofChar ']'] := by
    rw [Json.render_list]
    rfl
  have hjoin := Text.Utf8.encode_join "," (vs.map Json.render)
  rw [List.map_map] at hjoin
  rw [hrender, Text.Utf8.encode_append, Text.Utf8.encode_append, hjoin]
  rfl

/-- Whether a value is refused does not depend on its place in a list. -/
theorem Typed.check_eq {v : Json} (h : Typed v) (position : Nat) : check position v = .ok () := by
  cases v with
  | object fields =>
    rw [Typed, check] at h
    rw [check]
    unfold checkFields at h ⊢
    split
    · rename_i htype
      simp only [htype] at h
      split
      · rfl
      · rename_i hvalue
        rw [if_neg hvalue] at h
        cases h
    · rename_i htype
      split at h
      · rename_i hsome
        exact absurd hsome (htype _ _)
      · cases h
  | _ => cases h

theorem checkFrom_of_typed {vs : List Json} (h : ∀ v ∈ vs, Typed v) (position : Nat) : checkFrom position vs = .ok () := by
  induction vs generalizing position with
  | nil => rfl
  | cons v vs ih =>
    rw [List.forall_mem_cons] at h
    rw [checkFrom, h.1.check_eq position]
    exact ih h.2 (position + 1)

theorem parseList_render {vs : List Json} (h : ∀ v ∈ vs, Sound v) :
    parseList (Json.list vs).render = .ok (vs.map Json.canonical) := by
  have hportable : (Json.list vs).Portable := .list fun v hv => (h v hv).portable
  have htyped : ∀ v ∈ vs.map Json.canonical, Typed v := by
    rw [List.forall_mem_map]
    intro v hv
    exact (typed_canonical (h v hv).portable).mpr (h v hv).typed
  rw [parseList, Json.parse?_render hportable, Json.canonical_list]
  simp only [checkFrom_of_typed htyped 0]
  rfl

theorem parseList_encodings {vs : List Json} (h : ∀ v ∈ vs, Sound v) :
    ∃ bs s ws, vs.mapM encode = .ok bs ∧
      Text.Utf8.decode? ([0x5B] ++ List.intercalate [0x2C] bs ++ [0x5D]) = some s ∧
      parseList s = .ok ws ∧ List.Forall₂ Json.Reordered vs ws := by
  refine ⟨_, (Json.list vs).render, vs.map Json.canonical, mapM_encode h, ?_,
    parseList_render h, ?_⟩
  · rw [bracketed_encodings]
    exact Text.Utf8.decode?_encode (Text.isSurrogate_of_isAscii (Json.isAscii_render _))
  · rw [List.forall₂_map_right_iff, List.forall₂_same]
    intro v _
    exact Json.reordered_canonical v

/-- Arguments have the same bytes exactly when they differ at most in the order of fields; from its bytes an argument
is read up to that order, and so is every list of arguments from their bytes, joined by commas in brackets. -/
theorem encoding_tells_value :
    (∀ v w, Sound v → Sound w → (encode v = encode w ↔ Json.Reordered v w)) ∧
    (∀ v, Sound v → ∃ b u, encode v = .ok b ∧ decode b = .ok u ∧ Json.Reordered v u) ∧
    (∀ vs, (∀ v ∈ vs, Sound v) → ∃ bs s ws, vs.mapM encode = .ok bs ∧
      Text.Utf8.decode? ([0x5B] ++ List.intercalate [0x2C] bs ++ [0x5D]) = some s ∧
      parseList s = .ok ws ∧ List.Forall₂ Json.Reordered vs ws) := by
  refine ⟨?_, ?_, ?_⟩
  · intro v w hv hw
    exact encode_eq_iff hv hw
  · intro v hv
    exact decode_encode hv
  · intro vs hvs
    exact parseList_encodings hvs

def sampleItems : Json := .list [.int 1, .float .nan, .object [("b", .bool true), ("a", .null)]]

theorem wellFormed_sampleItems : sampleItems.WellFormed := by
  have hone : (1 : Int).natAbs < 10 ^ Text.Numeral.digitLimit := Nat.one_lt_pow (by decide) (by decide)
  have hobject : (Json.object [("b", .bool true), ("a", .null)]).WellFormed := by
    refine .object (by decide) ?_ ?_
    · simp [Json.unpaired_of_isAscii, Text.ofString, Text.isAscii, CodePoint.val_ofChar]
    · simp [Json.WellFormed.bool, Json.WellFormed.null]
  apply Json.WellFormed.list
  simp [Json.WellFormed.int hone, Json.WellFormed.float, hobject]

def sampleTypeLast : Json := .object [("value", sampleItems), ("type", .text "Array")]

def sampleTypeFirst : Json := .object [("type", .text "Array"), ("value", sampleItems)]

theorem sound_samples : Sound sampleTypeLast ∧ Sound sampleTypeFirst := by
  have hvalue : Json.Unpaired "value" := Json.unpaired_of_isAscii (by decide)
  have htype : Json.Unpaired "type" := Json.unpaired_of_isAscii (by decide)
  have harray : Json.Unpaired "Array" := Json.unpaired_of_isAscii (by decide)
  refine ⟨⟨.object (by decide) ?_ ?_, rfl⟩, ⟨.object (by decide) ?_ ?_, rfl⟩⟩
  · simp [hvalue, htype]
  · simp [wellFormed_sampleItems, Json.WellFormed.text harray]
  · simp [hvalue, htype]
  · simp [wellFormed_sampleItems, Json.WellFormed.text harray]

theorem reordered_samples : Json.Reordered sampleTypeLast sampleTypeFirst := by
  have hswap : [(("value" : Text), sampleItems), ("type", .text "Array")].Perm
      [("type", .text "Array"), ("value", sampleItems)] := List.Perm.swap _ _ _
  refine .object rfl ?_ hswap
  simp [Json.Reordered.refl]

/-- Where the type stands makes no difference to the bytes, and the values come back, one by one or together. -/
theorem encoding_tells_samples :
    encode sampleTypeLast = encode sampleTypeFirst ∧
    (∃ b u, encode sampleTypeFirst = .ok b ∧ decode b = .ok u ∧ Json.Reordered sampleTypeFirst u) ∧
    (∃ bs s ws, [sampleTypeLast, sampleTypeFirst].mapM encode = .ok bs ∧
      Text.Utf8.decode? ([0x5B] ++ List.intercalate [0x2C] bs ++ [0x5D]) = some s ∧
      parseList s = .ok ws ∧ List.Forall₂ Json.Reordered [sampleTypeLast, sampleTypeFirst] ws) := by
  obtain ⟨hlast, hfirst⟩ := sound_samples
  obtain ⟨hiff, hread, hlist⟩ := encoding_tells_value
  refine ⟨(hiff _ _ hlast hfirst).mpr reordered_samples, hread _ hfirst, hlist _ ?_⟩
  exact List.forall_mem_cons.mpr ⟨hlast, List.forall_mem_singleton.mpr hfirst⟩

end Argument

end Signatory
