import Signatory.Proofs.Cbor.RoundTrip
import Signatory.Proofs.Text.Basic

/-! Items up to the order of map entries. Two items differ at most in that order exactly when they have one canonical
form, and an item is written as its canonical form is. -/

namespace Signatory.Cbor
set_option autoImplicit false

/-- Bytes stand in the order of the texts that have them for code points. -/
theorem bytesLe_eq (a b : Bytes) : bytesLe a b = Text.le (a.map .ofByte) (b.map .ofByte) := by
  induction a generalizing b with
  | nil => rfl
  | cons x a ih =>
    cases b with
    | nil => rfl
    | cons y b =>
      have hlt : decide (x < y) = decide ((CodePoint.ofByte x).val < (CodePoint.ofByte y).val) :=
        decide_eq_decide.mpr UInt8.lt_iff_toNat_lt
      have heq : (x == y) = ((CodePoint.ofByte x).val == (CodePoint.ofByte y).val) :=
        decide_eq_decide.mpr UInt8.toNat_inj.symm
      rw [bytesLe, ih, hlt, heq]
      rfl

theorem keyLe_iff {a b : Bytes} : keyLe a b = true ↔
    a.length < b.length ∨ a.length = b.length ∧ Text.le (a.map .ofByte) (b.map .ofByte) = true := by
  rw [keyLe, bytesLe_eq]
  simp

theorem keyLe_trans (a b c : Bytes) (hab : keyLe a b = true) (hbc : keyLe b c = true) : keyLe a c = true := by
  rw [keyLe_iff] at hab hbc ⊢
  rcases hab with hab | ⟨hab, hle⟩
  · rcases hbc with hbc | ⟨hbc, _⟩ <;> exact .inl (by omega)
  · rcases hbc with hbc | ⟨hbc, hle'⟩
    · exact .inl (by omega)
    · exact .inr ⟨hab.trans hbc, Text.le_trans _ _ _ hle hle'⟩

theorem keyLe_total (a b : Bytes) : (keyLe a b || keyLe b a) = true := by
  rw [Bool.or_eq_true, keyLe_iff, keyLe_iff]
  rcases Nat.lt_trichotomy a.length b.length with h | h | h
  · exact .inl (.inl h)
  · have htotal := Text.le_total (a.map .ofByte) (b.map .ofByte)
    rw [Bool.or_eq_true] at htotal
    rcases htotal with hle | hle
    · exact .inl (.inr ⟨h, hle⟩)
    · exact .inr (.inr ⟨h.symm, hle⟩)
  · exact .inr (.inl h)

theorem keyLe_antisymm {a b : Bytes} (hab : keyLe a b = true) (hba : keyLe b a = true) : a = b := by
  rw [keyLe_iff] at hab hba
  rcases hab with hab | ⟨hab, hle⟩
  · omega
  · rcases hba with hba | ⟨_, hle'⟩
    · omega
    · have hmap := Text.le_antisymm _ _ hle hle'
      refine List.map_injective_iff.mpr ?_ hmap
      intro x y hxy
      exact UInt8.toNat_inj.mp (congrArg (fun p : CodePoint => p.val) hxy)

/-- The bytes of a name tell the name, and where it ends. -/
theorem name_append_inj {k l : Value} (hk : k.IsName) (hl : l.IsName) {r s : Bytes}
    (h : encode k ++ r = encode l ++ s) : k = l ∧ r = s := by
  cases k with
  | int i =>
    cases l with
    | int j =>
      obtain ⟨rfl, hrest⟩ := encodeInt_append_inj h
      exact ⟨rfl, hrest⟩
    | bytes b => exact absurd (bytes_cut h.symm).1 Value.noConfusion
    | text t => exact absurd (text_cut h.symm).1 Value.noConfusion
    | _ => exact hl.elim
  | bytes b =>
    obtain ⟨rfl, hrest⟩ := bytes_cut h
    exact ⟨rfl, hrest⟩
  | text t =>
    obtain ⟨rfl, hrest⟩ := text_cut h
    exact ⟨rfl, hrest⟩
  | _ => exact hk.elim

namespace Value

/-- Items that differ at most in the order of map entries, at any depth. -/
inductive Reordered : Value → Value → Prop where
  | refl (v : Value) : Reordered v v
  | list {vs ws : List Value} : vs.length = ws.length → (∀ p ∈ vs.zip ws, Reordered p.1 p.2) →
      Reordered (list vs) (list ws)
  | map {es fs gs : List (Value × Value)} : Entries.keys es = Entries.keys fs →
      (∀ p ∈ es.zip fs, Reordered p.1.2 p.2.2) → fs.Perm gs → Reordered (map es) (map gs)

theorem reordered_of_perm {es fs : List (Value × Value)} (h : es.Perm fs) : Reordered (map es) (map fs) := by
  refine .map rfl ?_ h
  intro p hp
  obtain ⟨_, hzip⟩ := (Lists.map_eq_map_iff_zip (f := id) (g := id)).mp (rfl : es.map id = es.map id)
  have hsame : p.1 = p.2 := hzip p hp
  rw [hsame]
  exact .refl _

theorem inOrder_eq_iff {es fs : List (Value × Value)} (hnodup : (Entries.keys es).Nodup)
    (hnames : ∀ e ∈ es, e.1.IsName) : inOrder es = inOrder fs ↔ ∃ gs : List (Value × Value),
      es.map (fun e => (e.1, canonical e.2)) = gs.map (fun e => (e.1, canonical e.2)) ∧ gs.Perm fs := by
  have hname : ∀ k ∈ Entries.keys es, k.IsName := List.forall_mem_map.mpr hnames
  refine Entries.sorted_eq_iff (r := fun k l => keyLe (encode k) (encode l)) canonical ?_ ?_ ?_ hnodup
  · intro k l m
    exact keyLe_trans _ _ _
  · intro k l
    exact keyLe_total _ _
  · intro k hk l hl hkl hlk
    have hbytes := congrArg (· ++ []) (keyLe_antisymm hkl hlk)
    exact (name_append_inj (hname k hk) (hname l hl) hbytes).1

theorem mergeSort_inOrder (es : List (Value × Value)) : (inOrder es).mergeSort entryLe = inOrder es := by
  apply List.mergeSort_of_pairwise
  rw [inOrder, List.pairwise_map]
  apply List.pairwise_mergeSort
  · intro e f g
    exact keyLe_trans _ _ _
  · intro e f
    exact keyLe_total _ _

theorem canonical_canonical {v : Value} (h : v.Portable) : canonical (canonical v) = canonical v := by
  induction h with
  | list _ ih =>
    rw [canonical_list, canonical_list, List.map_map]
    exact congrArg Value.list (List.map_congr_left ih)
  | @map es _ _ _ _ _ ih =>
    have hperm := List.mergeSort_perm es entryLe
    rw [canonical_map, canonical_map, inOrder, mergeSort_inOrder, inOrder, List.map_map]
    refine congrArg Value.map (List.map_congr_left fun e he => ?_)
    rw [Function.comp_apply, ih e (hperm.mem_iff.mp he)]
  | _ => rfl

theorem exists_list_of_canonical {w : Value} {vs : List Value} (h : canonical w = .list vs) :
    ∃ ws, w = .list ws ∧ ws.map canonical = vs := by
  cases w with
  | list ws =>
    rw [canonical_list] at h
    exact ⟨ws, rfl, Value.list.inj h⟩
  | _ => cases h

theorem exists_map_of_canonical {w : Value} {es : List (Value × Value)} (h : canonical w = .map es) :
    ∃ fs, w = .map fs ∧ inOrder fs = es := by
  cases w with
  | map fs =>
    rw [canonical_map] at h
    exact ⟨fs, rfl, Value.map.inj h⟩
  | _ => cases h

theorem eq_of_canonical_eq {v w : Value} (hlist : ∀ vs, v ≠ .list vs) (hmap : ∀ es, v ≠ .map es)
    (h : canonical v = canonical w) : v = w := by
  have hv : canonical v = v := by
    cases v with
    | list vs => exact absurd rfl (hlist vs)
    | map es => exact absurd rfl (hmap es)
    | _ => rfl
  cases w with
  | list ws => exact absurd (hv.symm.trans (h.trans (canonical_list ws))) (hlist _)
  | map fs => exact absurd (hv.symm.trans (h.trans (canonical_map fs))) (hmap _)
  | _ => exact hv.symm.trans h

theorem reordered_list_of_map {vs ws : List Value} (hmap : vs.map canonical = ws.map canonical)
    (h : ∀ v ∈ vs, ∀ w, canonical v = canonical w → Reordered v w) : Reordered (.list vs) (.list ws) := by
  obtain ⟨hlength, hzip⟩ := Lists.map_eq_map_iff_zip.mp hmap
  refine .list hlength ?_
  rintro ⟨v, w⟩ hp
  exact h v (List.of_mem_zip hp).1 w (hzip _ hp)

theorem reordered_entries_of_map {es fs gs : List (Value × Value)}
    (hmap : es.map (fun e => (e.1, canonical e.2)) = fs.map (fun e => (e.1, canonical e.2))) (hperm : fs.Perm gs)
    (h : ∀ e ∈ es, ∀ w, canonical e.2 = canonical w → Reordered e.2 w) : Reordered (.map es) (.map gs) := by
  obtain ⟨hkeys, hzip⟩ := Entries.map_eq_map_iff.mp hmap
  refine .map hkeys ?_ hperm
  rintro ⟨e, f⟩ hp
  exact h e (List.of_mem_zip hp).1 f.2 (hzip _ hp)

theorem reordered_of_canonical_eq {v : Value} (h : v.Portable) {w : Value} (hvw : canonical v = canonical w) :
    Reordered v w := by
  induction h generalizing w with
  | list _ ih =>
    rw [canonical_list] at hvw
    obtain ⟨ws, rfl, hws⟩ := exists_list_of_canonical hvw.symm
    exact reordered_list_of_map hws.symm fun v hv w => ih v hv
  | map hnodup hnames _ _ _ ih =>
    rw [canonical_map] at hvw
    obtain ⟨fs, rfl, hfs⟩ := exists_map_of_canonical hvw.symm
    obtain ⟨gs, hmap, hperm⟩ := (inOrder_eq_iff hnodup hnames).mp hfs.symm
    exact reordered_entries_of_map hmap hperm fun e he w => ih e he
  | _ =>
    obtain rfl := eq_of_canonical_eq (fun _ => Value.noConfusion) (fun _ => Value.noConfusion) hvw
    exact .refl _

theorem canonical_eq_of_reordered {v w : Value} (hvw : Reordered v w) (h : v.Portable) :
    canonical v = canonical w := by
  induction hvw with
  | refl _ => rfl
  | @list vs ws hlength _ ih =>
    cases h with
    | list hportable =>
      have hmap := Lists.map_eq_map_iff_zip.mpr ⟨hlength, fun p hp => ih p hp (hportable p.1 (List.of_mem_zip hp).1)⟩
      rw [canonical_list, canonical_list, hmap]
  | @map es fs gs hkeys _ hperm ih =>
    cases h with
    | map hnodup hnames _ hportable =>
      have hvalues : ∀ p ∈ es.zip fs, canonical p.1.2 = canonical p.2.2 := by
        intro p hp
        exact ih p hp (hportable p.1 (List.of_mem_zip hp).1)
      have hmap := Entries.map_eq_map_iff.mpr ⟨hkeys, hvalues⟩
      have horder := (inOrder_eq_iff hnodup hnames).mpr ⟨fs, hmap, hperm⟩
      rw [canonical_map, canonical_map, horder]

/-- Two items differ at most in the order of map entries exactly when their canonical forms are the same. -/
theorem reordered_iff {v w : Value} (h : v.Portable) : Reordered v w ↔ canonical v = canonical w :=
  ⟨fun hvw => canonical_eq_of_reordered hvw h, reordered_of_canonical_eq h⟩

end Value

end Signatory.Cbor
