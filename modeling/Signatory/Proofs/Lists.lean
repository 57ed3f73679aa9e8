import Mathlib.Data.List.Forall2
import Mathlib.Data.List.Induction
import Mathlib.Data.List.Perm.Basic

/-! Lists related item by item, and lists without repetitions. -/

namespace Signatory.Lists
set_option autoImplicit false

variable {α β γ : Type}

theorem map_eq_map_iff {f : α → γ} {g : β → γ} {xs : List α} {ys : List β} :
    xs.map f = ys.map g ↔ List.Forall₂ (fun x y => f x = g y) xs ys := by
  rw [← List.forall₂_eq_eq_eq, List.forall₂_map_left_iff, List.forall₂_map_right_iff]

theorem map_eq_map {f : α → γ} {g : β → γ} {xs : List α} {ys : List β}
    (h : List.Forall₂ (fun x y => f x = g y) xs ys) : xs.map f = ys.map g := map_eq_map_iff.mpr h

theorem map_eq_map_iff_zip {f : α → γ} {g : β → γ} {xs : List α} {ys : List β} :
    xs.map f = ys.map g ↔ xs.length = ys.length ∧ ∀ p ∈ xs.zip ys, f p.1 = g p.2 := by
  rw [map_eq_map_iff, List.forall₂_iff_zip]
  constructor
  · rintro ⟨hlength, h⟩
    exact ⟨hlength, fun p hp => h hp⟩
  · rintro ⟨hlength, h⟩
    exact ⟨hlength, fun {x y} hp => h (x, y) hp⟩

/-- Lists whose images are the same up to order: a rearrangement of the second has the images of the first, one by
one. -/
theorem exists_perm_of_map_perm {f : α → γ} {g : β → γ} {xs : List α} {ys : List β} (h : (xs.map f).Perm (ys.map g)) :
    ∃ zs : List β, xs.map f = zs.map g ∧ zs.Perm ys := by
  have hys : List.Forall₂ (fun c y => c = g y) (ys.map g) ys := by
    rw [List.forall₂_map_left_iff, List.forall₂_same]
    intro y _
    rfl
  obtain ⟨zs, hzs, hperm⟩ := List.perm_comp_forall₂ h hys
  rw [List.forall₂_map_left_iff] at hzs
  exact ⟨zs, map_eq_map hzs, hperm⟩

/-- Pieces that tell what they stand for and where they end still do so when they are joined. -/
theorem flatMap_append_inj {f : α → List γ} {g : α → β} {xs ys : List α} {r s : List γ}
    (hpiece : ∀ x ∈ xs, ∀ y ∈ ys, ∀ r s, f x ++ r = f y ++ s → g x = g y ∧ r = s) (hlength : xs.length = ys.length)
    (h : xs.flatMap f ++ r = ys.flatMap f ++ s) : xs.map g = ys.map g ∧ r = s := by
  induction xs generalizing ys with
  | nil =>
    obtain rfl := List.eq_nil_of_length_eq_zero hlength.symm
    exact ⟨rfl, h⟩
  | cons x xs ih =>
    cases ys with
    | nil => cases hlength
    | cons y ys =>
      rw [List.flatMap_cons, List.flatMap_cons, List.append_assoc, List.append_assoc] at h
      obtain ⟨hfirst, hrest⟩ := hpiece x List.mem_cons_self y List.mem_cons_self _ _ h
      have hothers : ∀ x' ∈ xs, ∀ y' ∈ ys, ∀ r s, f x' ++ r = f y' ++ s → g x' = g y' ∧ r = s :=
        fun x' hx' y' hy' => hpiece x' (List.mem_cons_of_mem x hx') y' (List.mem_cons_of_mem y hy')
      obtain ⟨hmap, hr⟩ := ih hothers (Nat.succ.inj hlength) hrest
      exact ⟨by rw [List.map_cons, List.map_cons, hfirst, hmap], hr⟩

theorem exists_of_mem_right {R : α → β → Prop} {xs : List α} {ys : List β} (h : List.Forall₂ R xs ys) {y : β}
    (hy : y ∈ ys) : ∃ x ∈ xs, R x y := by
  induction h with
  | nil => cases hy
  | @cons x y' xs ys hxy _ ih =>
    rcases List.mem_cons.mp hy with rfl | hy
    · exact ⟨x, List.mem_cons_self, hxy⟩
    · obtain ⟨x', hx', h⟩ := ih hy
      exact ⟨x', List.mem_cons_of_mem x hx', h⟩

theorem eraseDups_concat [BEq α] [LawfulBEq α] [DecidableEq α] (xs : List α) (x : α) :
    (xs ++ [x]).eraseDups = if x ∈ xs then xs.eraseDups else xs.eraseDups ++ [x] := by
  rw [List.eraseDups_append]
  split
  · rename_i h
    simp [List.removeAll, h]
  · rename_i h
    simp [List.removeAll, h, List.eraseDups_cons]

theorem nodup_eraseDups [BEq α] [LawfulBEq α] [DecidableEq α] (xs : List α) : xs.eraseDups.Nodup := by
  induction xs using List.reverseRecOn with
  | nil => exact List.nodup_nil
  | append_singleton xs x ih =>
    rw [eraseDups_concat]
    split
    · exact ih
    · rename_i hx
      have hne : ∀ y ∈ xs.eraseDups, y ≠ x := fun y hy h => hx (h ▸ List.mem_eraseDups.mp hy)
      exact List.nodup_append.mpr ⟨ih, by simp, by simpa using hne⟩

/-- Without its repetitions, a list keeps the order in which its items first occur. -/
theorem pairwise_idxOf_eraseDups [BEq α] [LawfulBEq α] [DecidableEq α] (xs : List α) :
    xs.eraseDups.Pairwise fun x y => xs.idxOf x < xs.idxOf y := by
  induction xs using List.reverseRecOn with
  | nil => exact .nil
  | append_singleton xs x ih =>
    have hold : xs.eraseDups.Pairwise fun y z => (xs ++ [x]).idxOf y < (xs ++ [x]).idxOf z := by
      refine ih.imp_of_mem fun hy hz h => ?_
      rwa [List.idxOf_append_of_mem (List.mem_eraseDups.mp hy), List.idxOf_append_of_mem (List.mem_eraseDups.mp hz)]
    rw [eraseDups_concat]
    split
    · exact hold
    · rename_i hnew
      refine List.pairwise_append.mpr ⟨hold, List.pairwise_singleton _ _, ?_⟩
      intro y hy z hz
      obtain rfl := List.mem_singleton.mp hz
      have hy := List.mem_eraseDups.mp hy
      rw [List.idxOf_append_of_mem hy, List.idxOf_append_of_notMem hnew]
      exact Nat.lt_of_lt_of_le (List.idxOf_lt_length_iff.mpr hy) (Nat.le_add_right _ _)

theorem getElem?_concat_eq_some {xs : List α} {x y : α} {i : Nat} (h : (xs ++ [x])[i]? = some y) :
    xs[i]? = some y ∨ i = xs.length ∧ y = x := by
  rcases Nat.lt_or_ge i xs.length with hi | hi
  · exact .inl (List.getElem?_append_left hi ▸ h)
  · rw [List.getElem?_append_right hi, List.getElem?_singleton] at h
    split at h
    · exact .inr ⟨by omega, (Option.some.inj h).symm⟩
    · cases h

theorem mergeSort_pair (le : α → α → Bool) (a b : α) : [a, b].mergeSort le = if le a b then [a, b] else [b, a] := by
  simp [List.mergeSort, List.MergeSort.Internal.splitInTwo, List.merge]

end Signatory.Lists
