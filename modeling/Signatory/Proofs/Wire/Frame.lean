import Signatory.Proofs.Text.Utf8
import Signatory.Wire.Frame

/-! Frames read back: what a payload is wrapped in is taken off again, for payloads up to the largest size of a frame. -/

namespace Signatory.Wire.Frame
set_option autoImplicit false
open Text.Utf8 (toNat_ofNat_of_lt)

/-- A payload of this many bytes, or of more, is too long for a frame, as messages of two gibibytes are for protocol
buffers. -/
def sizeLimit : Nat := 0x80000000

theorem varint?_varint (limit : Nat) {n : Nat} (h : n < 128 ^ (limit + 1)) (rest : Bytes) :
    varint? (limit + 1) (varint n ++ rest) = some (n, rest) := by
  induction limit generalizing n with
  | zero =>
    have hn : n < 128 := h
    have hbyte : UInt8.ofNat n < 128 := by
      rw [UInt8.lt_iff_toNat_lt, toNat_ofNat_of_lt (by omega)]
      exact hn
    rw [varint, if_pos hn, List.singleton_append, varint?, if_pos hbyte, toNat_ofNat_of_lt (by omega)]
  | succ limit ih =>
    rw [varint]
    by_cases hn : n < 128
    · have hbyte : UInt8.ofNat n < 128 := by
        rw [UInt8.lt_iff_toNat_lt, toNat_ofNat_of_lt (by omega)]
        exact hn
      rw [if_pos hn, List.singleton_append, varint?, if_pos hbyte, toNat_ofNat_of_lt (by omega)]
    · have hbyte : ¬UInt8.ofNat (128 + n % 128) < 128 := by
        rw [UInt8.lt_iff_toNat_lt, toNat_ofNat_of_lt (by omega)]
        exact Nat.not_lt.mpr (Nat.le_add_right 128 _)
      have hrest : n / 128 < 128 ^ (limit + 1) := by
        rw [Nat.pow_succ] at h
        omega
      have hsum : 128 + n % 128 - 128 + 128 * (n / 128) = n := by omega
      rw [if_neg hn, List.cons_append, varint?, if_neg hbyte, ih hrest, Option.map_some,
        toNat_ofNat_of_lt (by omega), hsum]

/-- A number that needs more bytes is not read. -/
theorem varint?_varint_eq_none (limit : Nat) {n : Nat} (h : 128 ^ limit ≤ n) (rest : Bytes) (hlimit : limit ≠ 0) :
    varint? limit (varint n ++ rest) = none := by
  induction limit generalizing n with
  | zero => exact absurd rfl hlimit
  | succ limit ih =>
    have hn : ¬n < 128 := by
      have hpos : 0 < 128 ^ limit := Nat.pow_pos (by decide)
      rw [Nat.pow_succ] at h
      omega
    have hbyte : ¬UInt8.ofNat (128 + n % 128) < 128 := by
      rw [UInt8.lt_iff_toNat_lt, toNat_ofNat_of_lt (by omega)]
      exact Nat.not_lt.mpr (Nat.le_add_right 128 _)
    rw [varint, if_neg hn, List.cons_append, varint?, if_neg hbyte]
    rcases Nat.eq_zero_or_pos limit with rfl | hpos
    · rfl
    · have hrest : 128 ^ limit ≤ n / 128 := by
        rw [Nat.pow_succ] at h
        omega
      rw [ih hrest (Nat.ne_of_gt hpos)]
      rfl

theorem length_varint_le (limit : Nat) {n : Nat} (h : n < 128 ^ (limit + 1)) : (varint n).length ≤ limit + 1 := by
  induction limit generalizing n with
  | zero =>
    have hn : n < 128 := h
    rw [varint, if_pos hn, List.length_singleton]
  | succ limit ih =>
    rw [varint]
    split
    · exact Nat.le_add_left 1 _
    · have hrest : n / 128 < 128 ^ (limit + 1) := by
        rw [Nat.pow_succ] at h
        omega
      rw [List.length_cons]
      exact Nat.succ_le_succ (ih hrest)

theorem shortVarint?_varint {bound n : Nat} (hn : n < bound) (hbound : bound ≤ 128 ^ 5) (rest : Bytes) :
    shortVarint? bound (varint n ++ rest) = some (n, rest) := by
  rw [shortVarint?, varint?_varint 4 (Nat.lt_of_lt_of_le hn hbound), Option.filter_some,
    decide_eq_true hn, if_pos rfl]

theorem shortVarint?_varint_eq_none {bound n : Nat} (hn : bound ≤ n) (rest : Bytes) :
    shortVarint? bound (varint n ++ rest) = none := by
  rw [shortVarint?]
  rcases Nat.lt_or_ge n (128 ^ 5) with hsmall | hgreat
  · rw [varint?_varint 4 hsmall, Option.filter_some, if_neg]
    simpa using hn
  · rw [varint?_varint_eq_none 5 hgreat rest (by decide)]
    rfl

/-- A number in seven bits a byte tells itself, and where it ends. -/
theorem varint_append_inj {n m : Nat} {r s : Bytes} (h : varint n ++ r = varint m ++ s) : n = m ∧ r = s := by
  have hlimit (k : Nat) (hk : k ≤ max n m) : k < 128 ^ (max n m + 1) :=
    Nat.lt_of_le_of_lt hk (Nat.lt_trans (Nat.lt_pow_self (by decide)) (Nat.pow_lt_pow_succ (by decide)))
  have hn := varint?_varint (max n m) (hlimit n (Nat.le_max_left n m)) r
  have hm := varint?_varint (max n m) (hlimit m (Nat.le_max_right n m)) s
  rw [h, hm] at hn
  obtain ⟨hnumber, hrest⟩ := Prod.mk.inj (Option.some.inj hn)
  exact ⟨hnumber.symm, hrest.symm⟩

theorem skip?_append (b rest : Bytes) : skip? b.length (b ++ rest) = some (b, rest) := by
  rw [skip?, List.take_left, if_pos rfl, List.splitAt_eq, List.take_left, List.drop_left]

theorem length_le_length_wrap (payload : Bytes) : payload.length ≤ (wrap payload).length := by
  unfold wrap
  split
  · rename_i hempty
    rw [List.isEmpty_iff.mp hempty]
  · rw [List.length_append]
    exact Nat.le_add_left _ _

theorem length_wrap_le (payload : Bytes) (hsize : payload.length < sizeLimit) :
    (wrap payload).length ≤ payload.length + 6 := by
  have hlength := length_varint_le 4 (Nat.lt_of_lt_of_le hsize (by decide))
  unfold wrap
  split
  · exact Nat.zero_le _
  · rw [List.length_append, List.length_cons]
    omega

theorem unwrap?_wrap {payload : Bytes} (hne : payload ≠ []) (hsize : payload.length < sizeLimit) :
    unwrap? (wrap payload) = some payload := by
  have htag : shortVarint? 0x100000000 (0x0A :: (varint payload.length ++ payload)) =
      some (10, varint payload.length ++ payload) := rfl
  have hlength : shortVarint? 0x80000000 (varint payload.length ++ payload) = some (payload.length, payload) :=
    shortVarint?_varint hsize (by decide) payload
  have hskip : skip? payload.length payload = some (payload, []) := by
    simpa using skip?_append payload []
  have hempty : payload.isEmpty = false := List.isEmpty_eq_false_iff.mpr hne
  obtain ⟨n, hn⟩ : ∃ n, (0x0A :: (varint payload.length ++ payload)).length = n + 1 := ⟨_, rfl⟩
  rw [wrap, hempty]
  simp only [Bool.false_eq_true, if_false, List.cons_append, unwrap?, hn, scan?, htag, Option.bind_eq_bind,
    Option.bind_some]
  simp only [Nat.reduceDiv, hlength, hskip, Option.bind_some]
  rfl

/-- A payload of the largest size or more is not taken off its frame. -/
theorem unwrap?_wrap_eq_none {payload : Bytes} (hsize : sizeLimit ≤ payload.length) : unwrap? (wrap payload) = none := by
  have htag : shortVarint? 0x100000000 (0x0A :: (varint payload.length ++ payload)) =
      some (10, varint payload.length ++ payload) := rfl
  have hlength : shortVarint? 0x80000000 (varint payload.length ++ payload) = none :=
    shortVarint?_varint_eq_none hsize payload
  have hempty : payload.isEmpty = false := by
    rw [List.isEmpty_eq_false_iff]
    rintro rfl
    exact absurd hsize (by decide)
  obtain ⟨n, hn⟩ : ∃ n, (0x0A :: (varint payload.length ++ payload)).length = n + 1 := ⟨_, rfl⟩
  rw [wrap, hempty]
  simp only [Bool.false_eq_true, if_false, List.cons_append, unwrap?, hn, scan?, htag, Option.bind_eq_bind,
    Option.bind_some]
  simp only [Nat.reduceDiv, hlength, Option.bind_none]
  rfl

/-- Of payloads that are not empty no two have one frame. -/
theorem wrap_inj {a b : Bytes} (ha : a ≠ []) (hb : b ≠ []) (h : wrap a = wrap b) : a = b := by
  have hempty {payload : Bytes} (hne : payload ≠ []) : payload.isEmpty = false := List.isEmpty_eq_false_iff.mpr hne
  rw [wrap, wrap, hempty ha, hempty hb] at h
  exact (varint_append_inj (List.cons.inj h).2).2

end Signatory.Wire.Frame
