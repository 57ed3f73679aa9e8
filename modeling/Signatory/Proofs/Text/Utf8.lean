import Signatory.Proofs.Bytes
import Signatory.Text.Utf8

/-! UTF-8 read back: what a text without surrogates is written as, is read as that text. -/

namespace Signatory.Text.Utf8
set_option autoImplicit false

theorem toNat_ofNat_of_lt {n : Nat} (h : n < 256) : (UInt8.ofNat n).toNat = n := by
  rw [UInt8.toNat_ofNat', Nat.mod_eq_of_lt h]

theorem tail?_ofNat {n : Nat} (h : n < 64) : tail? (UInt8.ofNat (0x80 + n)) = some n := by
  unfold tail?
  rw [toNat_ofNat_of_lt (by omega)]
  have hrange : (0x80 ≤ 0x80 + n && 0x80 + n < 0xC0) = true := by simp; omega
  rw [if_pos hrange, Nat.add_sub_cancel_left]

section

variable {rest : Bytes}

theorem decode?_one {n : Nat} (h : n < 0x80) : decode? (UInt8.ofNat n :: rest) =
    (point? 0 n).bind fun p => (decode? rest).map (p :: ·) := by
  rw [decode?.eq_def]
  simp only [toNat_ofNat_of_lt (show n < 256 by omega), if_pos h]
  cases decode? rest <;> rfl

theorem decode?_two {x y : Nat} (hx : x < 32) (hy : y < 64) :
    decode? (UInt8.ofNat (0xC0 + x) :: UInt8.ofNat (0x80 + y) :: rest) =
      (point? 0x80 (x * 64 + y)).bind fun p => (decode? rest).map (p :: ·) := by
  rw [decode?, toNat_ofNat_of_lt (by omega), if_neg (by omega), if_neg (by omega), if_pos (by omega),
    Nat.add_sub_cancel_left, tail?_ofNat hy]
  cases decode? rest <;> rfl

theorem decode?_three {x y z : Nat} (hx : x < 16) (hy : y < 64) (hz : z < 64) :
    decode? (UInt8.ofNat (0xE0 + x) :: UInt8.ofNat (0x80 + y) :: UInt8.ofNat (0x80 + z) :: rest) =
      (point? 0x800 (x * 4096 + y * 64 + z)).bind fun p => (decode? rest).map (p :: ·) := by
  rw [decode?, toNat_ofNat_of_lt (by omega), if_neg (by omega), if_neg (by omega), if_neg (by omega),
    if_pos (by omega), Nat.add_sub_cancel_left]
  simp only [tail?_ofNat hy, tail?_ofNat hz, Option.bind_eq_bind, Option.bind_some]
  cases decode? rest <;> rfl

theorem decode?_four {x y z w : Nat} (hx : x < 16) (hy : y < 64) (hz : z < 64) (hw : w < 64) :
    decode? (UInt8.ofNat (0xF0 + x) :: UInt8.ofNat (0x80 + y) :: UInt8.ofNat (0x80 + z) :: UInt8.ofNat (0x80 + w) ::
        rest) =
      (point? 0x10000 (x * 262144 + y * 4096 + z * 64 + w)).bind fun p => (decode? rest).map (p :: ·) := by
  rw [decode?, toNat_ofNat_of_lt (by omega), if_neg (by omega), if_neg (by omega), if_neg (by omega),
    if_neg (by omega), Nat.add_sub_cancel_left]
  -- One step at a time: a comparison of the whole chains would work the products out.
  dsimp only
  rw [tail?_ofNat hy, tail?_ofNat hz, tail?_ofNat hw]
  rw [Option.bind_eq_bind, Option.bind_some, Option.bind_eq_bind, Option.bind_some, Option.bind_eq_bind, Option.bind_some]
  cases point? 0x10000 (x * 262144 + y * 4096 + z * 64 + w) <;> cases decode? rest <;> rfl

end

theorem point?_val {p : CodePoint} {least : Nat} (hleast : least ≤ p.val) (hp : p.isSurrogate = false) :
    point? least p.val = some p := by
  unfold point?
  have hrange : (least ≤ p.val && !(0xD800 ≤ p.val && p.val < 0xE000)) = true := by
    unfold CodePoint.isSurrogate at hp
    rw [hp, decide_eq_true hleast]
    rfl
  rw [dif_pos p.isLt, if_pos hrange]

/-- A code point at the front is read by itself. -/
theorem decode?_encodePoint {p : CodePoint} (hp : p.isSurrogate = false) (rest : Bytes) :
    decode? (encodePoint p ++ rest) = (decode? rest).map (p :: ·) := by
  have hlt := p.isLt
  unfold encodePoint
  dsimp only
  split
  · rename_i h1
    rw [List.singleton_append, decode?_one h1, point?_val (Nat.zero_le _) hp, Option.bind_some]
  split
  · rename_i h1 h2
    have hsum : p.val / 64 * 64 + p.val % 64 = p.val := by omega
    rw [List.cons_append, List.singleton_append, decode?_two (by omega) (by omega), hsum, point?_val (by omega) hp,
      Option.bind_some]
  split
  · rename_i h1 h2 h3
    have hsum : p.val / 4096 * 4096 + p.val / 64 % 64 * 64 + p.val % 64 = p.val := by omega
    rw [List.cons_append, List.cons_append, List.singleton_append, decode?_three (by omega) (by omega) (by omega), hsum,
      point?_val (by omega) hp, Option.bind_some]
  · rename_i h1 h2 h3
    have hsum : p.val / 262144 * 262144 + p.val / 4096 % 64 * 4096 + p.val / 64 % 64 * 64 + p.val % 64 = p.val := by
      omega
    rw [List.cons_append, List.cons_append, List.cons_append, List.singleton_append,
      decode?_four (by omega) (by omega) (by omega) (by omega), hsum, point?_val (by omega) hp, Option.bind_some]

theorem decode?_encode {s : Text} (h : ∀ p ∈ s, p.isSurrogate = false) : decode? (encode s) = some s := by
  induction s with
  | nil => rfl
  | cons p s ih =>
    rw [List.forall_mem_cons] at h
    have hcons : encode (p :: s) = encodePoint p ++ encode s := List.flatMap_cons
    rw [hcons, decode?_encodePoint h.1, ih h.2]
    rfl

end Signatory.Text.Utf8
