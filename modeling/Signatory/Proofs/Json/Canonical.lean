import Mathlib.Data.List.Perm.Basic
import Signatory.Proofs.Json.Quoted
import Signatory.Proofs.Json.Scalar

/-! JSON values up to the order of fields: the fields brought into the order of their keys, and that a value is
written in the same text afterwards. -/

namespace Signatory.Json
set_option autoImplicit false

/-- Induction over the items of lists and the values of objects. -/
@[elab_as_elim]
theorem memberInduction {motive : Json → Prop} (null : motive null) (bool : ∀ b, motive (bool b))
    (int : ∀ i, motive (int i)) (float : ∀ x, motive (float x)) (text : ∀ s, motive (text s))
    (list : ∀ vs, (∀ v ∈ vs, motive v) → motive (list vs))
    (object : ∀ fs, (∀ f ∈ fs, motive f.2) → motive (object fs)) (v : Json) : motive v := by
  refine @Json.rec motive (fun vs => ∀ v ∈ vs, motive v) (fun fs => ∀ f ∈ fs, motive f.2) (fun f => motive f.2)
    ?_ ?_ ?_ ?_ ?_ ?_ ?_ ?_ ?_ ?_ ?_ ?_ v
  · exact null
  · exact bool
  · exact int
  · exact float
  · exact text
  · exact list
  · exact object
  · intro v hv
    cases hv
  · intro v vs hv hvs
    exact List.forall_mem_cons.mpr ⟨hv, hvs⟩
  · intro f hf
    cases hf
  · intro f fs hf hfs
    exact List.forall_mem_cons.mpr ⟨hf, hfs⟩
  · intro k v hv
    exact hv

def fieldLe (f g : Text × Json) : Bool := Text.le f.1 g.1

mutual

/-- The value with the fields of every object in the order of their keys. -/
def canonical : Json → Json
  | list vs => list (canonicalAll vs)
  | object fs => object ((canonicalFields fs).mergeSort fieldLe)
  | v => v

def canonicalAll : List Json → List Json
  | [] => []
  | v :: vs => canonical v :: canonicalAll vs

def canonicalFields : List (Text × Json) → List (Text × Json)
  | [] => []
  | (k, v) :: fs => (k, canonical v) :: canonicalFields fs

end

/-- Values that differ at most in the order of the fields of objects, at any depth. -/
inductive Reordered : Json → Json → Prop where
  | refl (v : Json) : Reordered v v
  | list {vs ws : List Json} : vs.length = ws.length → (∀ p ∈ vs.zip ws, Reordered p.1 p.2) →
      Reordered (list vs) (list ws)
  | object {fs gs hs : List (Text × Json)} : Entries.keys fs = Entries.keys gs →
      (∀ p ∈ fs.zip gs, Reordered p.1.2 p.2.2) → gs.Perm hs → Reordered (object fs) (object hs)

theorem canonical_list (vs : List Json) : canonical (.list vs) = .list (vs.map canonical) := by
  have hall : canonicalAll vs = vs.map canonical := by
    induction vs with
    | nil => rfl
    | cons v vs ih => rw [canonicalAll, List.map_cons, ih]
  rw [canonical, hall]

def inOrder (fs : List (Text × Json)) : List (Text × Json) :=
  (fs.mergeSort fieldLe).map fun f => (f.1, canonical f.2)

theorem canonical_object (fs : List (Text × Json)) : canonical (.object fs) = .object (inOrder fs) := by
  have hall : canonicalFields fs = fs.map fun f => (f.1, canonical f.2) := by
    induction fs with
    | nil => rfl
    | cons f fs ih => rw [canonicalFields, List.map_cons, ih]
  rw [canonical, hall, inOrder, List.map_mergeSort]
  intro f _ g _
  rfl

theorem inOrder_perm (fs : List (Text × Json)) : (inOrder fs).Perm (fs.map fun f => (f.1, canonical f.2)) :=
  (List.mergeSort_perm fs fieldLe).map _

theorem keys_inOrder_perm (fs : List (Text × Json)) : (Entries.keys (inOrder fs)).Perm (Entries.keys fs) := by
  have hmap := (inOrder_perm fs).map Prod.fst
  rwa [List.map_map] at hmap

theorem mergeSort_inOrder (fs : List (Text × Json)) : (inOrder fs).mergeSort fieldLe = inOrder fs := by
  apply List.mergeSort_of_pairwise
  rw [inOrder, List.pairwise_map]
  exact List.pairwise_mergeSort (fun f g h => Text.le_trans f.1 g.1 h.1) (fun f g => Text.le_total f.1 g.1) fs

theorem canonical_canonical (v : Json) : canonical (canonical v) = canonical v := by
  induction v using memberInduction with
  | list vs ih =>
    rw [canonical_list, canonical_list, List.map_map]
    exact congrArg Json.list (List.map_congr_left ih)
  | object fs ih =>
    have hperm := List.mergeSort_perm fs fieldLe
    rw [canonical_object, canonical_object, inOrder, mergeSort_inOrder, inOrder, List.map_map]
    refine congrArg Json.object (List.map_congr_left fun f hf => ?_)
    rw [Function.comp_apply, ih f (hperm.mem_iff.mp hf)]
  | _ => rfl

theorem reordered_canonical (v : Json) : Reordered v (canonical v) := by
  induction v using memberInduction with
  | list vs ih =>
    have hzip : vs.zip (vs.map canonical) = vs.map fun v => (v, canonical v) := by
      simpa using List.zip_map' (f := id) (g := canonical) (l := vs)
    rw [canonical_list]
    refine .list (List.length_map canonical).symm ?_
    rw [hzip, List.forall_mem_map]
    exact ih
  | object fs ih =>
    have hzip : fs.zip (fs.map fun f => (f.1, canonical f.2)) = fs.map fun f => (f, (f.1, canonical f.2)) := by
      simpa using List.zip_map' (f := id) (g := fun f : Text × Json => (f.1, canonical f.2)) (l := fs)
    rw [canonical_object]
    have hkeys : Entries.keys fs = Entries.keys (fs.map fun f => (f.1, canonical f.2)) := by
      rw [Entries.keys, Entries.keys, List.map_map]
      rfl
    refine .object hkeys ?_ (inOrder_perm fs).symm
    rw [hzip, List.forall_mem_map]
    exact ih
  | _ => exact .refl _

theorem render_list (vs : List Json) : render (.list vs) = enclose '[' ']' (vs.map render) := by
  have hall : renderAll vs = vs.map render := by
    induction vs with
    | nil => rfl
    | cons v vs ih => rw [renderAll, List.map_cons, ih]
  rw [render, hall]

def renderField (f : Text × Json) : Text := Text.concat [quote f.1, ":", render f.2]

theorem render_object (fs : List (Text × Json)) :
    render (.object fs) = enclose '{' '}' ((fs.mergeSort fieldLe).map renderField) := by
  have hall : renderFields fs = fs.map fun f => (f.1, render f.2) := by
    induction fs with
    | nil => rfl
    | cons f fs ih => rw [renderFields, List.map_cons, ih]
  have hsorted : sortFields (renderFields fs) = (fs.mergeSort fieldLe).map fun f => (f.1, render f.2) := by
    rw [hall, sortFields, List.map_mergeSort]
    intro f _ g _
    rfl
  rw [render, hsorted, List.map_map]
  rfl

theorem render_canonical (v : Json) : render (canonical v) = render v := by
  induction v using memberInduction with
  | list vs ih =>
    rw [canonical_list, render_list, render_list, List.map_map]
    exact congrArg (enclose '[' ']') (List.map_congr_left ih)
  | object fs ih =>
    have hperm := List.mergeSort_perm fs fieldLe
    rw [canonical_object, render_object, render_object, mergeSort_inOrder, inOrder, List.map_map]
    refine congrArg (enclose '{' '}') (List.map_congr_left fun f hf => ?_)
    rw [Function.comp_apply, renderField, renderField, ih f (hperm.mem_iff.mp hf)]
  | _ => rfl

theorem isAscii_enclose {items : List Text} (h : ∀ s ∈ items, s.isAscii = true) {opening closing : Char}
    (hopening : opening.toNat < 128) (hclosing : closing.toNat < 128) :
    (enclose opening closing items).isAscii = true := by
  have hbody : Text.isAscii (Text.join "," items) = true := Text.isAscii_join rfl h
  rw [enclose, Text.isAscii_append, Text.isAscii_cons, Text.isAscii_cons, hbody]
  simp [CodePoint.val_ofChar, hopening, hclosing, Text.isAscii]

theorem isAscii_render (v : Json) : v.render.isAscii = true := by
  induction v using memberInduction with
  | null => rfl
  | bool b => cases b <;> rfl
  | int i => exact Text.isAscii_ofInt i
  | float x => exact isAscii_renderFloat x
  | text s => exact isAscii_quote s
  | list vs ih =>
    rw [render_list]
    exact isAscii_enclose (List.forall_mem_map.mpr ih) (by decide) (by decide)
  | object fs ih =>
    rw [render_object]
    refine isAscii_enclose (List.forall_mem_map.mpr fun f hf => ?_) (by decide) (by decide)
    rw [renderField, Text.isAscii_concat]
    simp only [List.all_cons, isAscii_quote, ih f ((List.mergeSort_perm fs fieldLe).mem_iff.mp hf)]
    rfl

theorem areWritable_iff {vs : List Json} : areWritable vs = true ↔ ∀ v ∈ vs, v.isWritable = true := by
  induction vs with
  | nil => simp [areWritable]
  | cons v vs ih => rw [areWritable, Bool.and_eq_true, ih, List.forall_mem_cons]

theorem areFieldsWritable_iff {fs : List (Text × Json)} :
    areFieldsWritable fs = true ↔ ∀ f ∈ fs, f.2.isWritable = true := by
  induction fs with
  | nil => simp [areFieldsWritable]
  | cons f fs ih => rw [areFieldsWritable, Bool.and_eq_true, ih, List.forall_mem_cons]

theorem isWritable_canonical (v : Json) : v.canonical.isWritable = v.isWritable := by
  induction v using memberInduction with
  | list vs ih =>
    rw [canonical_list, Bool.eq_iff_iff, isWritable, isWritable, areWritable_iff, areWritable_iff, List.forall_mem_map]
    exact forall₂_congr fun v hv => by rw [ih v hv]
  | object fs ih =>
    rw [canonical_object, Bool.eq_iff_iff, isWritable, isWritable, areFieldsWritable_iff, areFieldsWritable_iff]
    simp only [(inOrder_perm fs).mem_iff, List.forall_mem_map]
    exact forall₂_congr fun f hf => by rw [ih f hf]
  | _ => rfl

end Signatory.Json
