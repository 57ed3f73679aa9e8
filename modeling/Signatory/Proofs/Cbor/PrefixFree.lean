import Signatory.Cbor.Encoder
import Signatory.Proofs.Bytes

/-! No written item is the front of another: bytes that begin with an item tell which item it is and where it ends.
This holds of the items that are signed and named, which are made of integers, byte strings, texts and lists. -/

namespace Signatory.Cbor
set_option autoImplicit false

/-- An argument stands in the first byte, in `2 ^ k` bytes after it, or in unary. -/
theorem head_forms (n : Nat) :
    (n < 24 ∧ headInfo n = n ∧ headTail n = []) ∨
    (∃ k, k < 4 ∧ n < 256 ^ 2 ^ k ∧ headInfo n = 24 + k ∧ headTail n = Bytes.ofNat (2 ^ k) n) ∨
    (headInfo n = 28 ∧ headTail n = List.replicate n 0 ++ [1]) := by
  unfold headInfo headTail
  by_cases h24 : n < 24
  · exact .inl (by simp [h24])
  · refine .inr ?_
    by_cases h1 : n < 0x100
    · exact .inl ⟨0, by decide, by simpa using h1, by simp [h24, h1], by simp [h24, h1]⟩
    by_cases h2 : n < 0x10000
    · exact .inl ⟨1, by decide, by simpa using h2, by simp [h24, h1, h2], by simp [h24, h1, h2]⟩
    by_cases h4 : n < 0x100000000
    · exact .inl ⟨2, by decide, by simpa using h4, by simp [h24, h1, h2, h4], by simp [h24, h1, h2, h4]⟩
    by_cases h8 : n < 0x10000000000000000
    · exact .inl ⟨3, by decide, by simpa using h8, by simp [h24, h1, h2, h4, h8], by simp [h24, h1, h2, h4, h8]⟩
    · exact .inr (by simp [h24, h1, h2, h4, h8])

theorem headInfo_lt (n : Nat) : headInfo n < 32 := by
  rcases head_forms n with ⟨hn, h, _⟩ | ⟨k, hk, _, h, _⟩ | ⟨h, _⟩ <;> omega

theorem unary_append_inj {n m : Nat} {r s : Bytes}
    (h : List.replicate n 0 ++ [1] ++ r = List.replicate m 0 ++ [1] ++ s) : n = m ∧ r = s := by
  induction n generalizing m with
  | zero =>
    cases m with
    | zero => exact ⟨rfl, by simpa using h⟩
    | succ m => simp [List.replicate_succ] at h
  | succ n ih =>
    cases m with
    | zero => simp [List.replicate_succ] at h
    | succ m =>
      simp only [List.replicate_succ, List.cons_append, List.cons.injEq, true_and] at h
      obtain ⟨hn, hr⟩ := ih h
      exact ⟨congrArg (· + 1) hn, hr⟩

theorem ofNat_append_inj {width n m : Nat} {r s : Bytes} (hn : n < 256 ^ width) (hm : m < 256 ^ width)
    (h : Bytes.ofNat width n ++ r = Bytes.ofNat width m ++ s) : n = m ∧ r = s := by
  obtain ⟨hfront, hrest⟩ := List.append_inj h (by simp)
  exact ⟨Bytes.ofNat_inj hn hm hfront, hrest⟩

/-- The width that the first byte tells is enough to cut the argument off. -/
theorem headTail_append_inj {n m : Nat} {r s : Bytes} (hinfo : headInfo n = headInfo m)
    (h : headTail n ++ r = headTail m ++ s) : n = m ∧ r = s := by
  rcases head_forms n with ⟨hn, hin, htn⟩ | ⟨k, hk, hn, hin, htn⟩ | ⟨hin, htn⟩ <;>
    rcases head_forms m with ⟨hm, him, htm⟩ | ⟨j, hj, hm, him, htm⟩ | ⟨him, htm⟩ <;>
    rw [hin, him] at hinfo <;> rw [htn, htm] at h <;> try omega
  · exact ⟨hinfo, h⟩
  · obtain rfl : k = j := by omega
    exact ofNat_append_inj hn hm h
  · exact unary_append_inj h

theorem ofNat_eq_ofNat_iff {a b : Nat} : UInt8.ofNat a = UInt8.ofNat b ↔ a % 256 = b % 256 := by
  rw [← UInt8.toNat_inj, UInt8.toNat_ofNat', UInt8.toNat_ofNat']

theorem head_append_inj {major major' n m : Nat} {r s : Bytes} (hmajor : major < 8) (hmajor' : major' < 8)
    (h : head major n ++ r = head major' m ++ s) : major = major' ∧ n = m ∧ r = s := by
  simp only [head, List.cons_append, List.cons.injEq, ofNat_eq_ofNat_iff] at h
  obtain ⟨hfirst, hrest⟩ := h
  have hn := headInfo_lt n
  have hm := headInfo_lt m
  have heq : major = major' := by omega
  exact ⟨heq, headTail_append_inj (by omega) hrest⟩

theorem encodeBytes_append_inj {a b r s : Bytes} (h : encodeBytes a ++ r = encodeBytes b ++ s) : a = b ∧ r = s := by
  simp only [encodeBytes, List.append_assoc] at h
  obtain ⟨_, hlength, hrest⟩ := head_append_inj (by decide) (by decide) h
  exact List.append_inj hrest hlength

theorem lt_pow_magnitude (n : Nat) : n < 256 ^ (n.log2 / 8 + 1) := Bytes.lt_pow_of_log2_lt (by omega)

theorem magnitude_inj {n m : Nat} (h : magnitude n = magnitude m) : n = m := by
  have hlength := congrArg List.length h
  simp only [magnitude, Bytes.length_ofNat] at hlength
  unfold magnitude at h
  rw [← hlength] at h
  have hm := lt_pow_magnitude m
  rw [← hlength] at hm
  exact Bytes.ofNat_inj (lt_pow_magnitude n) hm h

theorem encodeNat_append_inj {major major' n m : Nat} {r s : Bytes} (hmajor : major < 2) (hmajor' : major' < 2)
    (h : encodeNat major n ++ r = encodeNat major' m ++ s) : major = major' ∧ n = m ∧ r = s := by
  unfold encodeNat at h
  split at h <;> split at h
  · exact head_append_inj (by omega) (by omega) h
  · rw [List.append_assoc] at h
    have := (head_append_inj (by omega) (by omega) h).1
    omega
  · rw [List.append_assoc] at h
    have := (head_append_inj (by omega) (by omega) h).1
    omega
  · rw [List.append_assoc, List.append_assoc] at h
    obtain ⟨_, htag, hrest⟩ := head_append_inj (by decide) (by decide) h
    obtain ⟨hmagnitude, htail⟩ := encodeBytes_append_inj hrest
    exact ⟨by omega, magnitude_inj hmagnitude, htail⟩

theorem encodeInt_append_inj {i j : Int} {r s : Bytes} (h : encodeInt i ++ r = encodeInt j ++ s) : i = j ∧ r = s := by
  cases i with
  | ofNat n =>
    cases j with
    | ofNat m =>
      obtain ⟨_, rfl, hr⟩ := encodeNat_append_inj (by decide) (by decide) h
      exact ⟨rfl, hr⟩
    | negSucc m => exact absurd (encodeNat_append_inj (by decide) (by decide) h).1 (by decide)
  | negSucc n =>
    cases j with
    | ofNat m => exact absurd (encodeNat_append_inj (by decide) (by decide) h).1 (by decide)
    | negSucc m =>
      obtain ⟨_, rfl, hr⟩ := encodeNat_append_inj (by decide) (by decide) h
      exact ⟨rfl, hr⟩

/-- The major type of an integer is that of a number, or of a tag. -/
theorem encodeInt_eq_head (i : Int) :
    ∃ major n rest, (major < 2 ∨ major = 6) ∧ encodeInt i = head major n ++ rest := by
  cases i with
  | ofNat n =>
    simp only [encodeInt, encodeNat]
    split
    · exact ⟨0, n, [], by simp, by simp⟩
    · exact ⟨6, _, _, by simp, rfl⟩
  | negSucc n =>
    simp only [encodeInt, encodeNat]
    split
    · exact ⟨1, n, [], by simp, by simp⟩
    · exact ⟨6, _, _, by simp, rfl⟩

theorem encodePoint_append_inj {p q : CodePoint} {r s : Bytes}
    (h : Text.Utf8.encodePoint p ++ r = Text.Utf8.encodePoint q ++ s) : p = q ∧ r = s := by
  have hp := p.isLt
  have hq := q.isLt
  unfold Text.Utf8.encodePoint at h
  dsimp only at h
  repeat' split at h
  all_goals simp only [List.cons_append, List.nil_append, List.cons.injEq, ofNat_eq_ofNat_iff] at h
  -- the first byte tells how many follow
  all_goals first
    | omega
    | exact ⟨Fin.ext (by omega), h.2⟩
    | exact ⟨Fin.ext (by omega), h.2.2⟩
    | exact ⟨Fin.ext (by omega), h.2.2.2⟩
    | exact ⟨Fin.ext (by omega), h.2.2.2.2⟩

theorem encodePoint_ne_nil (p : CodePoint) : Text.Utf8.encodePoint p ≠ [] := by
  unfold Text.Utf8.encodePoint
  dsimp only
  repeat' split
  all_goals simp

theorem utf8_inj {s t : Text} (h : Text.Utf8.encode s = Text.Utf8.encode t) : s = t := by
  induction s generalizing t with
  | nil =>
    cases t with
    | nil => rfl
    | cons q t => simp [Text.Utf8.encode, encodePoint_ne_nil] at h
  | cons p s ih =>
    cases t with
    | nil => simp [Text.Utf8.encode, encodePoint_ne_nil] at h
    | cons q t =>
      simp only [Text.Utf8.encode, List.flatMap_cons] at h
      obtain ⟨rfl, hrest⟩ := encodePoint_append_inj h
      rw [ih hrest]

theorem encodeText_append_inj {s t : Text} {r r' : Bytes} (h : encodeText s ++ r = encodeText t ++ r') :
    s = t ∧ r = r' := by
  simp only [encodeText, List.append_assoc] at h
  obtain ⟨_, hlength, hrest⟩ := head_append_inj (by decide) (by decide) h
  obtain ⟨hbytes, htail⟩ := List.append_inj hrest hlength
  exact ⟨utf8_inj hbytes, htail⟩

namespace Value

mutual

/-- Whether an item is made of integers, byte strings, texts and lists alone. -/
def isPlain : Value → Bool
  | .int _ | .bytes _ | .text _ => true
  | .list items => arePlain items
  | _ => false

def arePlain : List Value → Bool
  | [] => true
  | v :: vs => isPlain v && arePlain vs

end

end Value

open Value

theorem arePlain_map_bytes (bs : List Bytes) : arePlain (bs.map .bytes) = true := by
  induction bs with
  | nil => rfl
  | cons b bs ih => simp [arePlain, isPlain, ih]

/-- The kinds of plain items, by the major types that show them; a great integer shows that of a tag. -/
def kindOfMajor (major : Nat) : Nat := if major = 1 ∨ major = 6 then 0 else major

def kind : Value → Nat
  | .bytes _ => 2
  | .text _ => 3
  | .list _ => 4
  | _ => 0

theorem encode_eq_head {v : Value} (hv : v.isPlain) :
    ∃ major n rest, major < 8 ∧ kindOfMajor major = kind v ∧ encode v = head major n ++ rest := by
  cases v with
  | int i =>
    obtain ⟨major, n, rest, hmajor, h⟩ := encodeInt_eq_head i
    exact ⟨major, n, rest, by omega, by simp only [kindOfMajor, kind]; split <;> omega, h⟩
  | bytes b => exact ⟨2, _, _, by decide, rfl, rfl⟩
  | text s => exact ⟨3, _, _, by decide, rfl, rfl⟩
  | list items => exact ⟨4, _, _, by decide, rfl, rfl⟩
  | _ => simp [isPlain] at hv

theorem kind_eq_of_encode {v w : Value} {r s : Bytes} (hv : v.isPlain) (hw : w.isPlain)
    (h : encode v ++ r = encode w ++ s) : kind v = kind w := by
  obtain ⟨major, n, rest, hbound, hkind, hhead⟩ := encode_eq_head hv
  obtain ⟨major', m, rest', hbound', hkind', hhead'⟩ := encode_eq_head hw
  rw [hhead, hhead', List.append_assoc, List.append_assoc] at h
  obtain ⟨rfl, _⟩ := head_append_inj hbound hbound' h
  exact hkind.symm.trans hkind'

mutual

theorem encode_append_inj : ∀ {v w : Value} {r s : Bytes}, v.isPlain → w.isPlain →
    encode v ++ r = encode w ++ s → v = w ∧ r = s
  | .int i, .int j, _, _, _, _, h => by
    obtain ⟨rfl, hr⟩ := encodeInt_append_inj h
    exact ⟨rfl, hr⟩
  | .bytes a, .bytes b, _, _, _, _, h => by
    obtain ⟨rfl, hr⟩ := encodeBytes_append_inj h
    exact ⟨rfl, hr⟩
  | .text a, .text b, _, _, _, _, h => by
    obtain ⟨rfl, hr⟩ := encodeText_append_inj h
    exact ⟨rfl, hr⟩
  | .list vs, .list ws, _, _, hv, hw, h => by
    simp only [encode, List.append_assoc] at h
    obtain ⟨_, hlength, hrest⟩ := head_append_inj (by decide) (by decide) h
    obtain ⟨rfl, hr⟩ := encodeAll_append_inj hv hw hlength hrest
    exact ⟨rfl, hr⟩
  | .int _, .bytes _, _, _, hv, hw, h | .int _, .text _, _, _, hv, hw, h | .int _, .list _, _, _, hv, hw, h
  | .bytes _, .int _, _, _, hv, hw, h | .bytes _, .text _, _, _, hv, hw, h | .bytes _, .list _, _, _, hv, hw, h
  | .text _, .int _, _, _, hv, hw, h | .text _, .bytes _, _, _, hv, hw, h | .text _, .list _, _, _, hv, hw, h
  | .list _, .int _, _, _, hv, hw, h | .list _, .bytes _, _, _, hv, hw, h | .list _, .text _, _, _, hv, hw, h =>
    absurd (kind_eq_of_encode hv hw h) (by simp [kind])

theorem encodeAll_append_inj : ∀ {vs ws : List Value} {r s : Bytes}, arePlain vs → arePlain ws →
    vs.length = ws.length → (encodeAll vs).flatten ++ r = (encodeAll ws).flatten ++ s → vs = ws ∧ r = s
  | [], [], _, _, _, _, _, h => ⟨rfl, h⟩
  | v :: vs, w :: ws, _, _, hv, hw, hlength, h => by
    simp only [arePlain, Bool.and_eq_true] at hv hw
    simp only [encodeAll, List.flatten_cons, List.append_assoc] at h
    obtain ⟨rfl, hrest⟩ := encode_append_inj hv.1 hw.1 h
    obtain ⟨rfl, hr⟩ := encodeAll_append_inj hv.2 hw.2 (by simpa using hlength) hrest
    exact ⟨rfl, hr⟩

end

theorem encode_inj {v w : Value} (hv : v.isPlain) (hw : w.isPlain) (h : encode v = encode w) : v = w :=
  (encode_append_inj hv hw (congrArg (· ++ []) h)).1

end Signatory.Cbor
