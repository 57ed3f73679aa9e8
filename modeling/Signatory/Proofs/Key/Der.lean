import Signatory.Key.Der
import Signatory.Proofs.Bytes

/-! Numbers in DER. What is read is what the numbers read are written as, so that no two texts of bytes are read alike; and
what numbers of a bounded size are written as is read as them. -/

namespace Signatory.Der
set_option autoImplicit false

theorem eq_of_length? {b rest : Bytes} {n : Nat} (h : length? b = some (n, rest)) : b = length n ++ rest := by
  cases b with
  | nil => cases h
  | cons first tail =>
    rw [length?] at h
    split at h
    · rename_i hshort
      obtain ⟨rfl, rfl⟩ := Prod.mk.inj (Option.some.inj h)
      have hless : first.toNat < 128 := UInt8.lt_iff_toNat_lt.mp hshort
      rw [length, if_pos hless, UInt8.ofNat_toNat, List.singleton_append]
    · rw [List.splitAt_eq] at h
      dsimp only at h
      split at h
      · rename_i hwritten
        obtain ⟨rfl, rfl⟩ := Prod.mk.inj (Option.some.inj h)
        rw [hwritten, List.cons_append, List.take_append_drop]
      · cases h

theorem eq_of_element? {tag : UInt8} {b content rest : Bytes} (h : element? tag b = some (content, rest)) :
    b = element tag content ++ rest := by
  cases b with
  | nil => cases h
  | cons first tail =>
    simp only [element?, Option.bind_eq_bind, Option.bind_eq_some_iff, Prod.exists] at h
    obtain ⟨size, after, hlength, h⟩ := h
    split at h
    · rename_i hfits
      obtain ⟨rfl, hsize⟩ := hfits
      rw [List.splitAt_eq, Option.some.injEq, Prod.mk.injEq] at h
      obtain ⟨rfl, rfl⟩ := h
      rw [eq_of_length? hlength, element, List.length_take_of_le hsize, List.cons_append, List.append_assoc,
        List.take_append_drop]
    · cases h

theorem eq_of_integer? {b rest : Bytes} {n : Nat} (h : integer? b = some (n, rest)) : b = integer n ++ rest := by
  simp only [integer?, Option.bind_eq_bind, Option.bind_eq_some_iff, Prod.exists] at h
  obtain ⟨content, after, helement, h⟩ := h
  split at h
  · rename_i hshortest
    obtain ⟨rfl, rfl⟩ := Prod.mk.inj (Option.some.inj h)
    rw [integer, hshortest]
    exact eq_of_element? helement
  · cases h

theorem eq_pair_of_pair? {b : Bytes} {p : Nat × Nat} (h : pair? b = some p) : b = pair p := by
  simp only [pair?, Option.bind_eq_bind, Option.bind_eq_some_iff, Prod.exists] at h
  obtain ⟨content, rest, hsequence, first, content', hfirst, second, content'', hsecond, h⟩ := h
  split at h
  · rename_i hend
    obtain ⟨hcontent, hrest⟩ := hend
    obtain rfl := List.isEmpty_iff.mp hcontent
    obtain rfl := List.isEmpty_iff.mp hrest
    obtain rfl := Option.some.inj h
    rw [eq_of_element? hsequence, eq_of_integer? hfirst, eq_of_integer? hsecond, List.append_nil, List.append_nil, pair]
  · cases h

theorem length_magnitude (n : Nat) : (magnitude n).length = (n.log2 + 1) / 8 + 1 := Bytes.length_ofNat _ _

theorem toNat_magnitude (n : Nat) : (magnitude n).toNat = n :=
  Bytes.toNat_ofNat (Bytes.lt_pow_of_log2_lt (by omega))

theorem length?_length {n : Nat} (h : n < 256 ^ 126) (rest : Bytes) : length? (length n ++ rest) = some (n, rest) := by
  rw [length]
  split
  · rename_i hshort
    have hbyte : (UInt8.ofNat n).toNat = n := by
      rw [UInt8.toNat_ofNat']
      omega
    have hless : UInt8.ofNat n < 128 := by
      rw [UInt8.lt_iff_toNat_lt, hbyte]
      exact hshort
    rw [List.singleton_append, length?, if_pos hless, hbyte]
  · rename_i hlong
    have hlog := Bytes.log2_lt_of_lt_pow (by decide) h
    have hbyte : (UInt8.ofNat (128 + (n.log2 / 8 + 1))).toNat = 128 + (n.log2 / 8 + 1) := by
      rw [UInt8.toNat_ofNat']
      omega
    have hless : ¬UInt8.ofNat (128 + (n.log2 / 8 + 1)) < 128 := by
      rw [UInt8.lt_iff_toNat_lt, hbyte]
      exact Nat.not_lt.mpr (Nat.le_add_right _ _)
    have htell : Bytes.toNat (Bytes.ofNat (n.log2 / 8 + 1) n) = n :=
      Bytes.toNat_ofNat (Bytes.lt_pow_of_log2_lt (by omega))
    have hfront := Bytes.length_ofNat (n.log2 / 8 + 1) n
    rw [List.cons_append, length?, if_neg hless, hbyte, Nat.add_sub_cancel_left, List.splitAt_eq,
      List.take_left' hfront, List.drop_left' hfront]
    dsimp only
    rw [htell, length, if_neg hlong, if_pos rfl]

theorem element?_element {content : Bytes} (h : content.length < 256 ^ 126) (tag : UInt8) (rest : Bytes) :
    element? tag (element tag content ++ rest) = some (content, rest) := by
  rw [element, List.cons_append, List.append_assoc, element?, length?_length h]
  simp

theorem integer?_integer {n : Nat} (h : (magnitude n).length < 256 ^ 126) (rest : Bytes) :
    integer? (integer n ++ rest) = some (n, rest) := by
  rw [integer, integer?, element?_element h]
  simp [toNat_magnitude]

theorem length_magnitude_le (n : Nat) : (magnitude n).length ≤ (integer n).length := by
  rw [integer, element, List.length_cons, List.length_append]
  omega

theorem pair?_of_length {p : Nat × Nat} (h : (integer p.1).length + (integer p.2).length < 256 ^ 126) :
    pair? (pair p) = some p := by
  have hfirst := Nat.lt_of_le_of_lt (length_magnitude_le p.1) (Nat.lt_of_le_of_lt (Nat.le_add_right _ _) h)
  have hsecond := Nat.lt_of_le_of_lt (length_magnitude_le p.2) (Nat.lt_of_le_of_lt (Nat.le_add_left _ _) h)
  rw [← List.length_append] at h
  have hsequence := element?_element h 0x30 []
  have hlast := integer?_integer hsecond []
  rw [List.append_nil] at hsequence hlast
  rw [pair?, pair, hsequence]
  simp [integer?_integer hfirst, hlast]

theorem length_integer_le {n : Nat} (h : n < 256 ^ 32) : (integer n).length ≤ 35 := by
  have hlog := Bytes.log2_lt_of_lt_pow (by decide) h
  have hmagnitude := length_magnitude n
  have hshort : (magnitude n).length < 128 := by omega
  rw [integer, element, length, if_pos hshort, List.length_cons, List.length_append, List.length_singleton]
  omega

/-- Numbers of 32 bytes come back. -/
theorem pair?_pair {p : Nat × Nat} (hfirst : p.1 < 256 ^ 32) (hsecond : p.2 < 256 ^ 32) : pair? (pair p) = some p := by
  apply pair?_of_length
  calc (integer p.1).length + (integer p.2).length ≤ 35 + 35 :=
        Nat.add_le_add (length_integer_le hfirst) (length_integer_le hsecond)
    _ < 256 ^ 126 := by decide

/-- A zero keeps the top bit of 128 from being taken for a sign; without need of it a zero is refused. -/
example : pair (1, 128) = [0x30, 7, 2, 1, 1, 2, 2, 0, 128] ∧ pair? [0x30, 7, 2, 2, 0, 1, 2, 1, 1] = none := by decide

end Signatory.Der
