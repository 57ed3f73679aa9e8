import Signatory.Proofs.Cbor.RoundTrip

/-! Items that are nested too deep. Such an item is written like every other, but it is not read: what stands before its
deep part is read, and there is no room for that part. -/

namespace Signatory.Cbor
set_option autoImplicit false
open Value

namespace Value

theorem lt_depthAll_iff {room : Nat} {vs : List Value} : room < depthAll vs ↔ ∃ v ∈ vs, room < depth v := by
  induction vs with
  | nil => simp [depthAll]
  | cons v vs ih => simp only [depthAll, lt_max_iff, ih, List.mem_cons, exists_eq_or_imp]

theorem lt_depthEntries_iff {room : Nat} {es : List (Value × Value)} :
    room < depthEntries es ↔ ∃ e ∈ es, room < depth e.2 := by
  induction es with
  | nil => simp [depthEntries]
  | cons e es ih => simp only [depthEntries, lt_max_iff, ih, List.mem_cons, exists_eq_or_imp]

end Value

/-- There is no item where there is no room for it, whatever follows. -/
def Refuses (v : Value) : Prop :=
  ∀ (fuel room : Nat) (rest : Bytes), 2 * (encode v).length ≤ fuel → room < v.depth → (encode v).length < 2 ^ 64 →
    item? fuel room false (encode v ++ rest) = none

theorem items?_of_refuses {vs : List Value} (hreads : ∀ v ∈ vs, Reads v) (hrefuses : ∀ v ∈ vs, Refuses v) (fuel : Nat)
    {room : Nat} (rest : Bytes) (hfuel : 2 * (vs.flatMap encode).length + 1 ≤ fuel) (hdeep : ∃ v ∈ vs, room < v.depth)
    (hsize : (vs.flatMap encode).length < 2 ^ 64) :
    items? fuel room false vs.length (vs.flatMap encode ++ rest) = none := by
  induction vs generalizing fuel with
  | nil => simp at hdeep
  | cons v vs ih =>
    have hone := one_le_length_encode v
    rw [List.forall_mem_cons] at hreads hrefuses
    rw [List.flatMap_cons, List.length_append] at hfuel hsize
    obtain ⟨n, rfl⟩ : ∃ n, fuel = n + 1 := ⟨fuel - 1, by omega⟩
    rw [List.flatMap_cons, List.append_assoc, List.length_cons, items?]
    rcases Nat.lt_or_ge room v.depth with hv | hv
    · have hfirst := hrefuses.1 n room (vs.flatMap encode ++ rest) (by omega) hv (by omega)
      rw [hfirst]
      rfl
    · -- The first item is read, so the deep one is among the others.
      have hfirst := hreads.1 n room (vs.flatMap encode ++ rest) (by omega) hv (by omega)
      have hothers : ∃ w ∈ vs, room < w.depth := by
        obtain ⟨w, hw, hdeep⟩ := hdeep
        rcases List.mem_cons.mp hw with rfl | hw
        · omega
        · exact ⟨w, hw, hdeep⟩
      have hrest := ih hreads.2 hrefuses.2 n (by omega) hothers (by omega)
      simp only [hfirst, Option.bind_eq_bind, Option.bind_some, hrest, Option.bind_none]

theorem entries?_of_refuses {es : List (Value × Value)} (hnames : ∀ e ∈ es, e.1.IsName)
    (hkeys : ∀ e ∈ es, e.1.Portable) (hreads : ∀ e ∈ es, Reads e.2) (hrefuses : ∀ e ∈ es, Refuses e.2) (fuel : Nat)
    {room : Nat} (rest : Bytes) (hfuel : 2 * (es.flatMap fun e => encode e.1 ++ encode e.2).length + 1 ≤ fuel)
    (hdeep : ∃ e ∈ es, room < e.2.depth) (hsize : (es.flatMap fun e => encode e.1 ++ encode e.2).length < 2 ^ 64) :
    entries? fuel room false es.length ((es.flatMap fun e => encode e.1 ++ encode e.2) ++ rest) = none := by
  induction es generalizing fuel with
  | nil => simp at hdeep
  | cons e es ih =>
    have hone := one_le_length_encode e.1
    rw [List.forall_mem_cons] at hnames hkeys hreads hrefuses
    rw [List.flatMap_cons, List.length_append, List.length_append] at hfuel hsize
    obtain ⟨n, rfl⟩ : ∃ n, fuel = n + 2 + 1 := ⟨fuel - 3, by omega⟩
    have hkey (after : Bytes) : item? (n + 2) room true (encode e.1 ++ after) = some (e.1, after) :=
      item?_name hnames.1 hkeys.1 (by omega)
    rw [List.flatMap_cons, List.append_assoc, List.append_assoc, List.length_cons, entries?]
    simp only [hkey, Option.bind_eq_bind, Option.bind_some]
    rcases Nat.lt_or_ge room e.2.depth with hv | hv
    · have hvalue := hrefuses.1 (n + 2) room ((es.flatMap fun e => encode e.1 ++ encode e.2) ++ rest) (by omega) hv
        (by omega)
      rw [hvalue]
      rfl
    · have hvalue := hreads.1 (n + 2) room ((es.flatMap fun e => encode e.1 ++ encode e.2) ++ rest) (by omega) hv
        (by omega)
      have hothers : ∃ f ∈ es, room < f.2.depth := by
        obtain ⟨f, hf, hdeep⟩ := hdeep
        rcases List.mem_cons.mp hf with rfl | hf
        · omega
        · exact ⟨f, hf, hdeep⟩
      have hrest := ih hnames.2 hkeys.2 hreads.2 hrefuses.2 (n + 2) (by omega) hothers (by omega)
      simp only [hvalue, Option.bind_some, hrest, Option.bind_none]

theorem item?_without_room {major : Nat} (hmajor : major = 4 ∨ major = 5) (fuel count : Nat) (body : Bytes) :
    item? (fuel + 1) 0 false (head major count ++ body) = none := by
  have hfirst := first_of_head (show major < 8 by omega) count
  simp only [head, List.cons_append, item?, hfirst.1, hfirst.2, inside?]
  rcases hmajor with rfl | rfl <;> rfl

theorem refuses_list {vs : List Value} (hreads : ∀ v ∈ vs, Reads v) (hrefuses : ∀ v ∈ vs, Refuses v) :
    Refuses (.list vs) := by
  intro fuel room rest hfuel hroom hsize
  have hcount := length_le_flatMap_encode vs
  rw [encode_list, head, List.length_append, List.length_cons] at hfuel hsize
  rw [depth] at hroom
  obtain ⟨n, rfl⟩ : ∃ n, fuel = n + 1 := ⟨fuel - 1, by omega⟩
  rw [encode_list, List.append_assoc]
  cases room with
  | zero => exact item?_without_room (.inl rfl) n _ _
  | succ room =>
    have hdeep := lt_depthAll_iff.mp (Nat.succ_lt_succ_iff.mp hroom)
    have hitems := items?_of_refuses hreads hrefuses n rest (by omega) hdeep (by omega)
    rw [item?_list (by omega), hitems, Option.map_none]

theorem refuses_map {es : List (Value × Value)} (hnames : ∀ e ∈ es, e.1.IsName) (hkeys : ∀ e ∈ es, e.1.Portable)
    (hreads : ∀ e ∈ es, Reads e.2) (hrefuses : ∀ e ∈ es, Refuses e.2) : Refuses (.map es) := by
  intro fuel room rest hfuel hroom hsize
  have hperm := List.mergeSort_perm es entryLe
  have hcount := length_le_flatMap_entries (es.mergeSort entryLe)
  have hlength := hperm.length_eq
  rw [encode_map, head, List.length_append, List.length_cons] at hfuel hsize
  rw [depth] at hroom
  obtain ⟨n, rfl⟩ : ∃ n, fuel = n + 1 := ⟨fuel - 1, by omega⟩
  rw [encode_map, List.append_assoc]
  cases room with
  | zero => exact item?_without_room (.inr rfl) n _ _
  | succ room =>
    obtain ⟨e, he, hdeep⟩ := lt_depthEntries_iff.mp (Nat.succ_lt_succ_iff.mp hroom)
    have hentries := entries?_of_refuses (fun e he => hnames e (hperm.mem_iff.mp he))
      (fun e he => hkeys e (hperm.mem_iff.mp he)) (fun e he => hreads e (hperm.mem_iff.mp he))
      (fun e he => hrefuses e (hperm.mem_iff.mp he)) n rest (by omega) ⟨e, hperm.mem_iff.mpr he, hdeep⟩ (by omega)
    rw [← hlength, item?_map (by omega), hentries, Option.map_none]

theorem refuses_of_portable {v : Value} (h : v.Portable) : Refuses v := by
  induction h with
  | list hportable ih => exact refuses_list (fun v hv => reads_of_portable (hportable v hv)) ih
  | map _ hnames hkeys hportable _ ih =>
    exact refuses_map hnames hkeys (fun e he => reads_of_portable (hportable e he)) ih
  | _ =>
    intro fuel room rest _ hroom _
    exact absurd hroom (Nat.not_lt_zero room)

/-- An item that is nested deeper than a reader allows is not read. -/
theorem decode?_encode_eq_none {v : Value} (h : v.Portable) (hdepth : maxDepth < v.depth)
    (hsize : (encode v).length < 2 ^ 64) : decode? (encode v) = none := by
  have hitem := refuses_of_portable h (2 * (encode v).length + 2) maxDepth [] (Nat.le_add_right _ 2) hdepth hsize
  rw [List.append_nil] at hitem
  rw [decode?, hitem, Option.map_none]

end Signatory.Cbor
