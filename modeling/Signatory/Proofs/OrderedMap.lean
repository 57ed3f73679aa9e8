import Mathlib.Data.List.Basic
import Mathlib.Data.List.Induction
import Mathlib.Data.List.Nodup
import Mathlib.Data.List.Perm.Basic
import Signatory.OrderedMap
import Signatory.Proofs.Lists

/-! What stands in an ordered map, and where a new entry goes. -/

namespace Signatory
set_option autoImplicit false

variable {κ ν : Type}

section

variable [BEq κ]

theorem Entries.exists_mem_of_find? {k : κ} {v : ν} {es : List (κ × ν)} (h : find? k es = some v) :
    ∃ e ∈ es, e.2 = v := by
  induction es with
  | nil => cases h
  | cons e es ih =>
    rw [find?] at h
    split at h
    · exact ⟨e, List.mem_cons_self, Option.some.inj h⟩
    · obtain ⟨f, hf, hv⟩ := ih h
      exact ⟨f, List.mem_cons_of_mem e hf, hv⟩

theorem Entries.insert_of_unlike {k : κ} {v : ν} {es : List (κ × ν)} (h : ∀ e ∈ es, (e.1 == k) = false) :
    insert k v es = es ++ [(k, v)] := by
  induction es with
  | nil => rfl
  | cons e es ih =>
    rw [List.forall_mem_cons] at h
    rw [insert, h.1, ih h.2]
    rfl

/-- Entries of which no two have like keys are collected as they stand. -/
theorem Entries.collect_of_pairwise {es : List (κ × ν)} (h : es.Pairwise fun e f => (e.1 == f.1) = false) :
    collect es = es := by
  unfold collect
  induction es using List.reverseRecOn with
  | nil => rfl
  | append_singleton es e ih =>
    rw [List.pairwise_append] at h
    rw [List.foldl_append, ih h.1]
    exact insert_of_unlike fun f hf => h.2.2 f hf e (List.mem_singleton_self e)

theorem Entries.collect_of_nodup [LawfulBEq κ] {es : List (κ × ν)} (h : (keys es).Nodup) : collect es = es := by
  apply collect_of_pairwise
  rw [keys, List.nodup_iff_pairwise_ne, List.pairwise_map] at h
  exact h.imp fun hne => beq_false_of_ne hne

/-- Where no two keys are the same, an entry is found under its key, and nothing else is. -/
theorem Entries.mem_iff_find?_of_alike {k : κ} {v : ν} {es : List (κ × ν)} (hk : ∀ e ∈ es, (e.1 == k) = true ↔ e.1 = k)
    (h : (keys es).Nodup) : (k, v) ∈ es ↔ find? k es = some v := by
  induction es with
  | nil => simp [find?]
  | cons e es ih =>
    rw [List.forall_mem_cons] at hk
    simp only [keys, List.map_cons, List.nodup_cons] at h
    rw [List.mem_cons, ih hk.2 h.2, find?]
    by_cases hkey : e.1 = k
    · subst hkey
      have hnone : find? e.1 es ≠ some v := by
        intro hv
        exact h.1 (List.mem_map.mpr ⟨(e.1, v), (ih hk.2 h.2).mpr hv, rfl⟩)
      rw [if_pos (hk.1.mpr rfl)]
      simp [hnone, Prod.ext_iff, eq_comm]
    · have hne : (k, v) ≠ e := fun he => hkey (congrArg Prod.fst he.symm)
      rw [if_neg (fun he => hkey (hk.1.mp he))]
      simp [hne]

/-- Under its key a value is found in whatever order the entries stand. -/
theorem Entries.find?_of_perm {μ : Type} {f : ν → μ} {es : List (κ × ν)} {gs : List (κ × μ)}
    (hperm : gs.Perm (es.map fun e => (e.1, f e.2))) {k : κ} (hk : ∀ e ∈ es, (e.1 == k) = true ↔ e.1 = k)
    (h : (keys es).Nodup) : find? k gs = (find? k es).map f := by
  have hkeys : (keys gs).Perm (keys es) := by
    have hmap := hperm.map Prod.fst
    rwa [List.map_map] at hmap
  have hk' : ∀ e ∈ gs, (e.1 == k) = true ↔ e.1 = k := by
    intro e he
    obtain ⟨e', he', hkey⟩ := List.mem_map.mp (hkeys.mem_iff.mp (List.mem_map_of_mem (f := Prod.fst) he))
    rw [← hkey]
    exact hk e' he'
  ext w
  rw [← mem_iff_find?_of_alike hk' (hkeys.nodup_iff.mpr h), hperm.mem_iff, List.mem_map, Option.map_eq_some_iff]
  constructor
  · rintro ⟨e, he, heq⟩
    obtain ⟨rfl, rfl⟩ := Prod.mk.inj heq
    exact ⟨e.2, (mem_iff_find?_of_alike hk h).mp he, rfl⟩
  · rintro ⟨v, hv, rfl⟩
    exact ⟨(k, v), (mem_iff_find?_of_alike hk h).mpr hv, rfl⟩

end

theorem Entries.map_eq_map_iff {μ : Type} {f : ν → μ} {es fs : List (κ × ν)} :
    es.map (fun e => (e.1, f e.2)) = fs.map (fun e => (e.1, f e.2)) ↔
      keys es = keys fs ∧ ∀ p ∈ es.zip fs, f p.1.2 = f p.2.2 := by
  rw [keys, keys, Lists.map_eq_map_iff_zip, Lists.map_eq_map_iff_zip]
  constructor
  · rintro ⟨hlength, h⟩
    exact ⟨⟨hlength, fun p hp => (Prod.mk.inj (h p hp)).1⟩, fun p hp => (Prod.mk.inj (h p hp)).2⟩
  · rintro ⟨⟨hlength, hkeys⟩, h⟩
    exact ⟨hlength, fun p hp => Prod.ext (hkeys p hp) (h p hp)⟩

/-- Entries in the order of their keys are the same, each key once, exactly when they were the same but for their
order. -/
theorem Entries.sorted_eq_iff {μ : Type} {r : κ → κ → Bool} (f : ν → μ) {es fs : List (κ × ν)}
    (htrans : ∀ a b c, r a b = true → r b c = true → r a c = true) (htotal : ∀ a b, (r a b || r b a) = true)
    (hantisymm : ∀ a ∈ keys es, ∀ b ∈ keys es, r a b = true → r b a = true → a = b) (h : (keys es).Nodup) :
    (es.mergeSort fun e e' => r e.1 e'.1).map (fun e => (e.1, f e.2)) =
        (fs.mergeSort fun e e' => r e.1 e'.1).map (fun e => (e.1, f e.2)) ↔
      ∃ gs : List (κ × ν), es.map (fun e => (e.1, f e.2)) = gs.map (fun e => (e.1, f e.2)) ∧ gs.Perm fs := by
  have hperm (l : List (κ × ν)) : ((l.mergeSort fun e e' => r e.1 e'.1).map fun e => (e.1, f e.2)).Perm
      (l.map fun e => (e.1, f e.2)) := (List.mergeSort_perm l _).map _
  have hsorted (l : List (κ × ν)) : ((l.mergeSort fun e e' => r e.1 e'.1).map fun e => (e.1, f e.2)).Pairwise
      fun e e' => r e.1 e'.1 = true := by
    rw [List.pairwise_map]
    exact List.pairwise_mergeSort (fun a b c => htrans a.1 b.1 c.1) (fun a b => htotal a.1 b.1) l
  constructor
  · intro heq
    have himages := (hperm es).symm.trans (heq ▸ hperm fs)
    exact Lists.exists_perm_of_map_perm himages
  · rintro ⟨gs, hgs, hfs⟩
    have hnodup : (keys (es.map fun e => (e.1, f e.2))).Nodup := by
      rw [keys, List.map_map]
      exact h
    have himages : (es.map fun e => (e.1, f e.2)).Perm (fs.map fun e => (e.1, f e.2)) := hgs ▸ hfs.map _
    have hmem {e : κ × μ} (he : e ∈ es.map fun e => (e.1, f e.2)) : e.1 ∈ keys es := by
      obtain ⟨e', he', rfl⟩ := List.mem_map.mp he
      exact List.mem_map_of_mem he'
    refine List.Perm.eq_of_pairwise ?_ (hsorted es) (hsorted fs) ((hperm es).trans (himages.trans (hperm fs).symm))
    intro a b ha hb hab hba
    have ha := (hperm es).mem_iff.mp ha
    have hb := himages.mem_iff.mpr ((hperm fs).mem_iff.mp hb)
    have hkey := hantisymm a.1 (hmem ha) b.1 (hmem hb) hab hba
    exact List.inj_on_of_nodup_map hnodup ha hb hkey

variable [DecidableEq κ]

theorem Entries.insert_of_notMem {k : κ} {v : ν} {es : List (κ × ν)} (h : k ∉ keys es) :
    insert k v es = es ++ [(k, v)] := by
  apply insert_of_unlike
  intro e he
  rw [beq_eq_false_iff_ne]
  rintro rfl
  exact h (List.mem_map_of_mem he)

theorem Entries.mem_iff_find? {k : κ} {v : ν} {es : List (κ × ν)} (h : (keys es).Nodup) :
    (k, v) ∈ es ↔ find? k es = some v :=
  mem_iff_find?_of_alike (fun _ _ => beq_iff_eq) h

namespace OrderedMap

theorem mem_entries_iff {m : OrderedMap κ ν} {k : κ} {v : ν} : (k, v) ∈ m.entries ↔ m.find? k = some v :=
  Entries.mem_iff_find? m.nodup

theorem mem_keys_iff {m : OrderedMap κ ν} {k : κ} : k ∈ m.keys ↔ ∃ v, m.find? k = some v := by
  simp only [keys, Entries.keys, List.mem_map, Prod.exists, mem_entries_iff]
  constructor
  · rintro ⟨_, v, hv, rfl⟩
    exact ⟨v, hv⟩
  · rintro ⟨v, hv⟩
    exact ⟨k, v, hv, rfl⟩

theorem contains_iff {m : OrderedMap κ ν} {k : κ} : m.contains k = true ↔ k ∈ m.keys := by
  rw [contains, Option.isSome_iff_exists, mem_keys_iff]

theorem filterMap_find?_keys (m : OrderedMap κ ν) : m.keys.filterMap m.find? = m.values := by
  unfold keys values Entries.keys
  rw [List.filterMap_map, ← List.filterMap_eq_map]
  exact List.filterMap_congr fun e he => mem_entries_iff.mp he

/-- Under an unused key an entry goes last. -/
theorem entries_insert_of_notMem {m : OrderedMap κ ν} {k : κ} {v : ν} (h : k ∉ m.keys) :
    (m.insert k v).entries = m.entries ++ [(k, v)] :=
  Entries.insert_of_notMem h

theorem values_insert_of_notMem {m : OrderedMap κ ν} {k : κ} {v : ν} (h : k ∉ m.keys) :
    (m.insert k v).values = m.values ++ [v] := by
  simp [values, entries_insert_of_notMem h]

theorem keys_insert_of_notMem {m : OrderedMap κ ν} {k : κ} {v : ν} (h : k ∉ m.keys) :
    (m.insert k v).keys = m.keys ++ [k] := by
  rw [keys_insert, if_neg h]

theorem mem_keys_insert {m : OrderedMap κ ν} {k k' : κ} {v : ν} : k' ∈ (m.insert k v).keys ↔ k' ∈ m.keys ∨ k' = k := by
  rw [keys_insert]
  split
  · rename_i hk
    exact ⟨.inl, fun h => h.elim id fun heq => heq ▸ hk⟩
  · rw [List.mem_append, List.mem_singleton]

theorem find?_insert_self {m : OrderedMap κ ν} {k : κ} {v : ν} : (m.insert k v).find? k = some v := by
  rw [find?_insert, if_pos rfl]

/-- What stands under other keys stays. -/
theorem find?_insert_of_notMem {m : OrderedMap κ ν} {k k' : κ} {v w : ν} (hk : k ∉ m.keys)
    (h : m.find? k' = some w) : (m.insert k v).find? k' = some w := by
  have hne : k ≠ k' := by
    rintro rfl
    exact hk (mem_keys_iff.mpr ⟨w, h⟩)
  rw [find?_insert, if_neg hne, h]

theorem entries_ofList (es : List (κ × ν)) : (ofList es).entries = Entries.collect es := by
  have hfold (m : OrderedMap κ ν) : (es.foldl (fun m e => m.insert e.1 e.2) m).entries =
      es.foldl (fun acc e => Entries.insert e.1 e.2 acc) m.entries := by
    induction es generalizing m with
    | nil => rfl
    | cons e es ih => exact ih (m.insert e.1 e.2)
  exact hfold empty

theorem ofList_entries (m : OrderedMap κ ν) : ofList m.entries = m :=
  ext ((entries_ofList m.entries).trans (Entries.collect_of_nodup m.nodup))

end OrderedMap

end Signatory
