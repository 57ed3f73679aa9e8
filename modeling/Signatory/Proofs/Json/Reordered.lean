import Signatory.Proofs.Json.RoundTrip

/-! Values up to the order of fields, against their canonical forms: two values differ at most in that order exactly
when they have one canonical form. -/

namespace Signatory.Json
set_option autoImplicit false

theorem inOrder_eq_iff {fs gs : List (Text × Json)} (h : (Entries.keys fs).Nodup) : inOrder fs = inOrder gs ↔
    ∃ hs : List (Text × Json),
      fs.map (fun f => (f.1, canonical f.2)) = hs.map (fun f => (f.1, canonical f.2)) ∧ hs.Perm gs :=
  Entries.sorted_eq_iff canonical Text.le_trans Text.le_total (fun s _ t _ => Text.le_antisymm s t) h

theorem exists_list_of_canonical {w : Json} {vs : List Json} (h : canonical w = .list vs) :
    ∃ ws, w = .list ws ∧ ws.map canonical = vs := by
  cases w with
  | list ws =>
    rw [canonical_list] at h
    exact ⟨ws, rfl, Json.list.inj h⟩
  | _ => cases h

theorem exists_object_of_canonical {w : Json} {fs : List (Text × Json)} (h : canonical w = .object fs) :
    ∃ gs, w = .object gs ∧ inOrder gs = fs := by
  cases w with
  | object gs =>
    rw [canonical_object] at h
    exact ⟨gs, rfl, Json.object.inj h⟩
  | _ => cases h

/-- Without members a value is its own canonical form, and no other value's. -/
theorem eq_of_canonical_eq {v w : Json} (hlist : ∀ vs, v ≠ .list vs) (hobject : ∀ fs, v ≠ .object fs)
    (h : canonical v = canonical w) : v = w := by
  have hv : canonical v = v := by
    cases v with
    | list vs => exact absurd rfl (hlist vs)
    | object fs => exact absurd rfl (hobject fs)
    | _ => rfl
  cases w with
  | list ws => exact absurd (hv.symm.trans (h.trans (canonical_list ws))) (hlist _)
  | object gs => exact absurd (hv.symm.trans (h.trans (canonical_object gs))) (hobject _)
  | _ => exact hv.symm.trans h

theorem reordered_list_of_map {vs ws : List Json} (hmap : vs.map canonical = ws.map canonical)
    (h : ∀ v ∈ vs, ∀ w, canonical v = canonical w → Reordered v w) : Reordered (.list vs) (.list ws) := by
  obtain ⟨hlength, hzip⟩ := Lists.map_eq_map_iff_zip.mp hmap
  refine .list hlength ?_
  rintro ⟨v, w⟩ hp
  exact h v (List.of_mem_zip hp).1 w (hzip _ hp)

theorem reordered_object_of_map {fs gs hs : List (Text × Json)}
    (hmap : fs.map (fun f => (f.1, canonical f.2)) = gs.map (fun f => (f.1, canonical f.2))) (hperm : gs.Perm hs)
    (h : ∀ f ∈ fs, ∀ w, canonical f.2 = canonical w → Reordered f.2 w) : Reordered (.object fs) (.object hs) := by
  obtain ⟨hkeys, hzip⟩ := Entries.map_eq_map_iff.mp hmap
  refine .object hkeys ?_ hperm
  rintro ⟨f, g⟩ hp
  exact h f (List.of_mem_zip hp).1 g.2 (hzip _ hp)

theorem reordered_of_canonical_eq {v : Json} (h : v.Portable) {w : Json} (hvw : canonical v = canonical w) :
    Reordered v w := by
  induction h generalizing w with
  | list _ ih =>
    rw [canonical_list] at hvw
    obtain ⟨ws, rfl, hws⟩ := exists_list_of_canonical hvw.symm
    exact reordered_list_of_map hws.symm fun v hv w => ih v hv
  | object hnodup _ _ ih =>
    rw [canonical_object] at hvw
    obtain ⟨gs, rfl, hgs⟩ := exists_object_of_canonical hvw.symm
    obtain ⟨hs, hmap, hperm⟩ := (inOrder_eq_iff hnodup).mp hgs.symm
    exact reordered_object_of_map hmap hperm fun f hf w => ih f hf
  | _ =>
    obtain rfl := eq_of_canonical_eq (fun _ => Json.noConfusion) (fun _ => Json.noConfusion) hvw
    exact .refl _

theorem canonical_eq_of_reordered {v w : Json} (hvw : Reordered v w) (h : v.Portable) : canonical v = canonical w := by
  induction hvw with
  | refl _ => rfl
  | @list vs ws hlength _ ih =>
    cases h with
    | list hportable =>
      have hmap := Lists.map_eq_map_iff_zip.mpr ⟨hlength, fun p hp => ih p hp (hportable p.1 (List.of_mem_zip hp).1)⟩
      rw [canonical_list, canonical_list, hmap]
  | @object fs gs hs hkeys _ hperm ih =>
    cases h with
    | object hnodup _ hportable =>
      have hvalues : ∀ p ∈ fs.zip gs, canonical p.1.2 = canonical p.2.2 := by
        intro p hp
        exact ih p hp (hportable p.1 (List.of_mem_zip hp).1)
      have hmap := Entries.map_eq_map_iff.mpr ⟨hkeys, hvalues⟩
      have horder := (inOrder_eq_iff hnodup).mpr ⟨gs, hmap, hperm⟩
      rw [canonical_object, canonical_object, horder]

/-- Two values differ at most in the order of fields exactly when their canonical forms are the same. -/
theorem reordered_iff {v w : Json} (h : v.Portable) : Reordered v w ↔ canonical v = canonical w :=
  ⟨fun hvw => canonical_eq_of_reordered hvw h, reordered_of_canonical_eq h⟩

end Signatory.Json
