import Signatory.Proofs.Cbor.Reordered

/-! Bytes against items: the bytes of an item tell the item up to the order of map entries, and where it ends. Nothing is
asked of the size of the items or of how deep they are nested. -/

namespace Signatory.Cbor
set_option autoImplicit false
open Value

theorem encode_canonical {v : Value} (h : v.Portable) : encode (canonical v) = encode v := by
  induction h with
  | list _ ih =>
    rw [canonical_list, encode_list, encode_list, List.length_map, List.flatMap_map]
    rw [List.flatMap_congr ih]
  | @map es hnodup hnames _ _ _ ih =>
    have hperm := List.mergeSort_perm es entryLe
    have hvalues : ∀ e ∈ es.mergeSort entryLe, encode e.1 ++ encode (canonical e.2) = encode e.1 ++ encode e.2 := by
      intro e he
      rw [ih e (hperm.mem_iff.mp he)]
    rw [canonical_map, encode_map, encode_map, mergeSort_inOrder, inOrder, List.length_map, List.length_mergeSort,
      List.flatMap_map, List.flatMap_congr hvalues]
  | _ => rfl

theorem encodeFloat_append_inj {x y : Binary64} {r s : Bytes} (h : encodeFloat x ++ r = encodeFloat y ++ s) :
    x = y ∧ r = s := by
  obtain ⟨k, n, hk, hn, hx, hvalue⟩ := encodeFloat_forms x
  obtain ⟨j, m, hj, hm, hy, hvalue'⟩ := encodeFloat_forms y
  rw [hx, hy, List.cons_append, List.cons_append, List.cons.injEq, ofNat_eq_ofNat_iff] at h
  obtain ⟨hfirst, hrest⟩ := h
  -- The first byte tells the format, and with it how many bytes follow.
  obtain rfl : k = j := by omega
  obtain ⟨rfl, hr⟩ := ofNat_append_inj hn hm hrest
  exact ⟨hvalue.symm.trans hvalue', hr⟩

/-- A double is written with a greater first byte than a truth value or null. -/
theorem encodeFloat_ne_cons {x : Binary64} {c : Nat} (hc : c < 0xF9) {r s : Bytes} :
    encodeFloat x ++ r ≠ UInt8.ofNat c :: s := by
  intro h
  obtain ⟨k, n, hk, _, hx, _⟩ := encodeFloat_forms x
  rw [hx, List.cons_append, List.cons.injEq, ofNat_eq_ofNat_iff] at h
  omega

/-- An integer has a major type of its own, or that of a tag. -/
theorem int_apart {v : Value} {i : Int} (h : v.major = (Value.int i).major) (hv : 2 ≤ v.major ∧ v.major ≠ 6) : False := by
  have hint : (Value.int i).major < 2 ∨ (Value.int i).major = 6 := by
    cases i <;> simp only [major] <;> split <;> simp
  omega

/-- For all that follows it, the bytes of an item tell its canonical form and where it ends. -/
def Tells (v : Value) : Prop :=
  ∀ {w : Value} {r s : Bytes}, w.Portable → encode v ++ r = encode w ++ s → canonical v = canonical w ∧ r = s

theorem tells_null : Tells .null := by
  intro w r s hw h
  have hmajor := major_eq_of_encode h
  cases hw with
  | null => exact ⟨rfl, (List.cons.inj h).2⟩
  | bool b => cases b <;> simp [encode] at h
  | float x => exact absurd h.symm (encodeFloat_ne_cons (c := 0xF6) (by decide))
  | int j => exact (int_apart hmajor (by simp [major])).elim
  | _ => simp [major] at hmajor

theorem tells_bool (b : Bool) : Tells (.bool b) := by
  intro w r s hw h
  have hmajor := major_eq_of_encode h
  cases hw with
  | null => cases b <;> simp [encode] at h
  | bool c => cases b <;> cases c <;> simp [encode] at h ⊢ <;> exact h
  | float x =>
    cases b with
    | false => exact absurd h.symm (encodeFloat_ne_cons (c := 0xF4) (by decide))
    | true => exact absurd h.symm (encodeFloat_ne_cons (c := 0xF5) (by decide))
  | int j => exact (int_apart hmajor (by simp [major])).elim
  | _ => simp [major] at hmajor

theorem tells_float (x : Binary64) : Tells (.float x) := by
  intro w r s hw h
  have hmajor := major_eq_of_encode h
  cases hw with
  | null => exact absurd h (encodeFloat_ne_cons (c := 0xF6) (by decide))
  | bool b =>
    cases b with
    | false => exact absurd h (encodeFloat_ne_cons (c := 0xF4) (by decide))
    | true => exact absurd h (encodeFloat_ne_cons (c := 0xF5) (by decide))
  | float y =>
    obtain ⟨rfl, hr⟩ := encodeFloat_append_inj h
    exact ⟨rfl, hr⟩
  | int j => exact (int_apart hmajor (by simp [major])).elim
  | _ => simp [major] at hmajor

theorem tells_int (i : Int) : Tells (.int i) := by
  intro w r s hw h
  have hmajor := major_eq_of_encode h
  cases hw with
  | int j =>
    obtain ⟨rfl, hr⟩ := encodeInt_append_inj h
    exact ⟨rfl, hr⟩
  | _ => exact (int_apart hmajor.symm (by simp [major])).elim

theorem tells_list {vs : List Value} (ih : ∀ v ∈ vs, Tells v) : Tells (.list vs) := by
  intro w r s hw h
  have hmajor := major_eq_of_encode h
  cases hw with
  | @list ws hws =>
    rw [encode_list, encode_list, List.append_assoc, List.append_assoc] at h
    obtain ⟨_, hlength, hrest⟩ := head_append_inj (by decide) (by decide) h
    have hpiece : ∀ v ∈ vs, ∀ w ∈ ws, ∀ r s, encode v ++ r = encode w ++ s → canonical v = canonical w ∧ r = s :=
      fun v hv w hw r s => ih v hv (hws w hw)
    obtain ⟨hmap, hr⟩ := Lists.flatMap_append_inj hpiece hlength hrest
    rw [canonical_list, canonical_list, hmap]
    exact ⟨rfl, hr⟩
  | int j => exact (int_apart hmajor (by simp [major])).elim
  | _ => simp [major] at hmajor

/-- The entries stand in the same order on both sides, for each side has them in order. -/
theorem tells_map {es : List (Value × Value)} (hnames : ∀ e ∈ es, e.1.IsName) (ih : ∀ e ∈ es, Tells e.2) :
    Tells (.map es) := by
  intro w r s hw h
  have hmajor := major_eq_of_encode h
  cases hw with
  | @map fs _ hnames' _ hportable =>
    rw [encode_map, encode_map, List.append_assoc, List.append_assoc] at h
    obtain ⟨_, hlength, hrest⟩ := head_append_inj (by decide) (by decide) h
    have hes := List.mergeSort_perm es entryLe
    have hfs := List.mergeSort_perm fs entryLe
    have hpiece : ∀ e ∈ es.mergeSort entryLe, ∀ f ∈ fs.mergeSort entryLe, ∀ r s,
        (encode e.1 ++ encode e.2) ++ r = (encode f.1 ++ encode f.2) ++ s →
          (e.1, canonical e.2) = (f.1, canonical f.2) ∧ r = s := by
      intro e he f hf r s hentry
      have he := hes.mem_iff.mp he
      have hf := hfs.mem_iff.mp hf
      rw [List.append_assoc, List.append_assoc] at hentry
      obtain ⟨hkey, hvalue⟩ := name_append_inj (hnames e he) (hnames' f hf) hentry
      obtain ⟨hcanonical, hr⟩ := ih e he (hportable f hf) hvalue
      exact ⟨by rw [hkey, hcanonical], hr⟩
    have hlengths : (es.mergeSort entryLe).length = (fs.mergeSort entryLe).length := by
      rw [List.length_mergeSort, List.length_mergeSort, hlength]
    obtain ⟨hmap, hr⟩ := Lists.flatMap_append_inj hpiece hlengths hrest
    rw [canonical_map, canonical_map, inOrder, inOrder, hmap]
    exact ⟨rfl, hr⟩
  | int j => exact (int_apart hmajor (by simp [major])).elim
  | _ => simp [major] at hmajor

theorem tells_of_portable {v : Value} (h : v.Portable) : Tells v := by
  induction h with
  | null => exact tells_null
  | bool b => exact tells_bool b
  | int i => exact tells_int i
  | float x => exact tells_float x
  | bytes b =>
    intro w r s _ h
    obtain ⟨rfl, hr⟩ := bytes_cut h
    exact ⟨rfl, hr⟩
  | text _ =>
    intro w r s _ h
    obtain ⟨rfl, hr⟩ := text_cut h
    exact ⟨rfl, hr⟩
  | list _ ih => exact tells_list ih
  | map _ hnames _ _ _ ih => exact tells_map hnames ih

/-- Items are written alike exactly when they differ at most in the order of map entries. -/
theorem encode_eq_iff {v w : Value} (hv : v.Portable) (hw : w.Portable) : encode v = encode w ↔ Reordered v w := by
  rw [reordered_iff hv]
  constructor
  · intro h
    exact (tells_of_portable hv hw (congrArg (· ++ []) h)).1
  · intro h
    calc encode v = encode (canonical v) := (encode_canonical hv).symm
      _ = encode (canonical w) := by rw [h]
      _ = encode w := encode_canonical hw

end Signatory.Cbor
