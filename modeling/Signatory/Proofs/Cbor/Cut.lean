import Signatory.Proofs.Cbor.PrefixFree

/-! Plain items against items of any kind: bytes that begin with a plain item, read as an item of any kind, end where the
plain one does. The two need not be the same item, for a tuple is written as a list is and a tagged byte string as a
great integer; what is written is the same. -/

namespace Signatory.Cbor
set_option autoImplicit false

namespace Value

/-- The major type that an item shows in its first byte. -/
def major : Value → Nat
  | int (.ofNat n) => if n < 0x10000000000000000 then 0 else 6
  | int (.negSucc n) => if n < 0x10000000000000000 then 1 else 6
  | bytes _ => 2
  | text _ => 3
  | list _ | tuple _ => 4
  | map _ => 5
  | tagged _ _ => 6
  | _ => 7

end Value

open Value

theorem first_of_head {major : Nat} (h : major < 8) (n : Nat) :
    (UInt8.ofNat (32 * major + headInfo n)).toNat / 32 = major ∧
      (UInt8.ofNat (32 * major + headInfo n)).toNat % 32 = headInfo n := by
  have hinfo := headInfo_lt n
  rw [UInt8.toNat_ofNat', Nat.mod_eq_of_lt (by omega)]
  omega

theorem encode_eq_cons (v : Value) : ∃ b rest, encode v = b :: rest ∧ b.toNat / 32 = v.major := by
  have hhead (major n : Nat) (rest : Bytes) (h : major < 8) :
      ∃ b tail, head major n ++ rest = b :: tail ∧ b.toNat / 32 = major :=
    ⟨_, headTail n ++ rest, rfl, (first_of_head h n).1⟩
  cases v with
  | null => exact ⟨_, _, rfl, rfl⟩
  | bool b => cases b <;> exact ⟨_, _, rfl, rfl⟩
  | int i =>
    cases i with
    | ofNat n =>
      simp only [encode, encodeInt, encodeNat, major]
      split
      · exact List.append_nil (head 0 n) ▸ hhead 0 n [] (by decide)
      · exact hhead 6 _ _ (by decide)
    | negSucc n =>
      simp only [encode, encodeInt, encodeNat, major]
      split
      · exact List.append_nil (head 1 n) ▸ hhead 1 n [] (by decide)
      · exact hhead 6 _ _ (by decide)
  | float x =>
    simp only [encode, encodeFloat]
    split
    · exact ⟨_, _, rfl, rfl⟩
    · split <;> exact ⟨_, _, rfl, rfl⟩
  | bytes b => exact hhead 2 _ _ (by decide)
  | text s => exact hhead 3 _ _ (by decide)
  | list items => exact hhead 4 _ _ (by decide)
  | tuple items => exact hhead 4 _ _ (by decide)
  | map entries => exact hhead 5 _ _ (by decide)
  | simple n => exact ⟨_, _, rfl, (first_of_head (show 7 < 8 by decide) n).1⟩
  | tagged tag item => exact hhead 6 _ _ (by decide)

/-- The first byte tells the major type. -/
theorem major_eq_of_encode {v w : Value} {r s : Bytes} (h : encode v ++ r = encode w ++ s) : v.major = w.major := by
  obtain ⟨b, rest, hv, hb⟩ := encode_eq_cons v
  obtain ⟨c, rest', hw, hc⟩ := encode_eq_cons w
  rw [hv, hw, List.cons_append, List.cons_append, List.cons.injEq] at h
  rw [← hb, ← hc, h.1]

theorem bytes_cut {b r s : Bytes} {w : Value} (h : encode (.bytes b) ++ r = encode w ++ s) :
    w = .bytes b ∧ r = s := by
  have hmajor := major_eq_of_encode h
  cases w with
  | bytes c =>
    obtain ⟨rfl, hrest⟩ := encodeBytes_append_inj h
    exact ⟨rfl, hrest⟩
  | int i => cases i <;> simp only [major] at hmajor <;> split at hmajor <;> omega
  | _ => simp [major] at hmajor

theorem text_cut {t : Text} {r s : Bytes} {w : Value} (h : encode (.text t) ++ r = encode w ++ s) :
    w = .text t ∧ r = s := by
  have hmajor := major_eq_of_encode h
  cases w with
  | text u =>
    obtain ⟨rfl, hrest⟩ := encodeText_append_inj h
    exact ⟨rfl, hrest⟩
  | int i => cases i <;> simp only [major] at hmajor <;> split at hmajor <;> omega
  | _ => simp [major] at hmajor

/-- A number is written as an integer, or as a tag on a byte string. -/
theorem encodeNat_cut {major n tag : Nat} {item : Value} {r s : Bytes} (hmajor : major < 2)
    (h : encodeNat major n ++ r = head 6 tag ++ encode item ++ s) :
    encodeNat major n = head 6 tag ++ encode item ∧ r = s := by
  unfold encodeNat at h ⊢
  split at h
  · rw [List.append_assoc] at h
    have := (head_append_inj (by omega) (by decide) h).1
    omega
  · rename_i hgreat
    rw [List.append_assoc, List.append_assoc] at h
    obtain ⟨_, rfl, hrest⟩ := head_append_inj (by decide) (by decide) h
    obtain ⟨rfl, hr⟩ := bytes_cut (b := magnitude n) hrest
    rw [if_neg hgreat]
    exact ⟨rfl, hr⟩

theorem int_cut {i : Int} {r s : Bytes} {w : Value} (h : encode (.int i) ++ r = encode w ++ s) :
    encode (.int i) = encode w ∧ r = s := by
  have hmajor := major_eq_of_encode h
  cases w with
  | int j =>
    obtain ⟨rfl, hrest⟩ := encodeInt_append_inj h
    exact ⟨rfl, hrest⟩
  | tagged tag item =>
    cases i with
    | ofNat n => exact encodeNat_cut (by decide) h
    | negSucc n => exact encodeNat_cut (by decide) h
  | _ => cases i <;> simp only [major] at hmajor <;> split at hmajor <;> omega

mutual

theorem encode_append_cut : ∀ {v w : Value} {r s : Bytes}, v.isPlain → encode v ++ r = encode w ++ s →
    encode v = encode w ∧ r = s
  | .int _, _, _, _, _, h => int_cut h
  | .bytes _, _, _, _, _, h => by
    obtain ⟨rfl, hr⟩ := bytes_cut h
    exact ⟨rfl, hr⟩
  | .text _, _, _, _, _, h => by
    obtain ⟨rfl, hr⟩ := text_cut h
    exact ⟨rfl, hr⟩
  | .list vs, w, r, s, hv, h => by
    have hitems (ws : List Value) (h : encode (.list vs) ++ r = encode (.list ws) ++ s) :
        encode (.list vs) = encode (.list ws) ∧ r = s := by
      simp only [encode, List.append_assoc] at h ⊢
      obtain ⟨_, hlength, hrest⟩ := head_append_inj (by decide) (by decide) h
      obtain ⟨hall, hr⟩ := encodeAll_append_cut hv hlength hrest
      rw [hlength, hall]
      exact ⟨rfl, hr⟩
    have hmajor := major_eq_of_encode h
    cases w with
    | list ws => exact hitems ws h
    | tuple ws => exact hitems ws h
    | int j => cases j <;> simp only [major] at hmajor <;> split at hmajor <;> omega
    | _ => simp [major] at hmajor

theorem encodeAll_append_cut : ∀ {vs ws : List Value} {r s : Bytes}, arePlain vs → vs.length = ws.length →
    (encodeAll vs).flatten ++ r = (encodeAll ws).flatten ++ s → encodeAll vs = encodeAll ws ∧ r = s
  | [], [], _, _, _, _, h => ⟨rfl, h⟩
  | v :: vs, w :: ws, _, _, hv, hlength, h => by
    simp only [arePlain, Bool.and_eq_true] at hv
    simp only [encodeAll, List.flatten_cons, List.append_assoc] at h ⊢
    obtain ⟨hfirst, hrest⟩ := encode_append_cut hv.1 h
    obtain ⟨hall, hr⟩ := encodeAll_append_cut hv.2 (by simpa using hlength) hrest
    exact ⟨by rw [hfirst, hall], hr⟩

end

/-- Plain items that are written as others are, one list as the other, are written alike one by one. -/
theorem encodeAll_eq_of_encode_list {vs ws : List Value} (hv : arePlain vs)
    (h : encode (.list vs) = encode (.list ws)) : encodeAll vs = encodeAll ws := by
  simp only [encode] at h
  obtain ⟨_, hlength, hrest⟩ := head_append_inj (by decide) (by decide) h
  exact (encodeAll_append_cut (r := []) (s := []) hv hlength (by simpa using hrest)).1

end Signatory.Cbor
