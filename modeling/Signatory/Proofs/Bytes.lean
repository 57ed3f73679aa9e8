import Mathlib.Tactic.IntervalCases
import Mathlib.Tactic.Ring
import Signatory.Text.Basic

/-! Numbers written in a fixed count of bytes: the bytes tell the number as far as it fits. Bytes written as hexadecimal
digits: the text tells the bytes. -/

namespace Signatory.Bytes
set_option autoImplicit false

@[simp] theorem length_ofNat (width n : Nat) : (ofNat width n).length = width := by
  induction width with
  | zero => rfl
  | succ w ih => simp [ofNat, ih]

theorem mod_eq_of_ofNat_eq {width n m : Nat} (h : ofNat width n = ofNat width m) :
    n % 256 ^ width = m % 256 ^ width := by
  induction width with
  | zero => simp [Nat.mod_one]
  | succ w ih =>
    simp only [ofNat, List.cons.injEq] at h
    obtain ⟨hdigit, hrest⟩ := h
    have hbyte := congrArg UInt8.toNat hdigit
    simp only [UInt8.toNat_ofNat', Nat.pow_eq] at hbyte
    have hn : n / 256 ^ w % 256 = m / 256 ^ w % 256 := by omega
    rw [Nat.pow_succ, Nat.mod_mul, Nat.mod_mul, ih hrest, hn]

theorem ofNat_inj {width n m : Nat} (hn : n < 256 ^ width) (hm : m < 256 ^ width)
    (h : ofNat width n = ofNat width m) : n = m := by
  have hmod := mod_eq_of_ofNat_eq h
  rwa [Nat.mod_eq_of_lt hn, Nat.mod_eq_of_lt hm] at hmod

theorem foldl_toNat (bs : Bytes) (acc : Nat) :
    bs.foldl (fun n b => 256 * n + b.toNat) acc = acc * 256 ^ bs.length + toNat bs := by
  induction bs generalizing acc with
  | nil => simp [toNat]
  | cons b bs ih =>
    simp only [toNat, List.foldl_cons, List.length_cons]
    rw [ih, ih (256 * 0 + b.toNat), Nat.pow_succ']
    ring

/-- Reading gives back the number as far as it fits. -/
theorem toNat_ofNat_mod (width n : Nat) : toNat (ofNat width n) = n % 256 ^ width := by
  induction width with
  | zero => simp [ofNat, toNat, Nat.mod_one]
  | succ w ih =>
    have hcons : toNat (ofNat (w + 1) n) = n / 256 ^ w % 256 * 256 ^ w + toNat (ofNat w n) := by
      simp only [ofNat, toNat, List.foldl_cons]
      rw [foldl_toNat, length_ofNat, UInt8.toNat_ofNat', Nat.pow_eq]
      simp [toNat]
    rw [hcons, ih, Nat.pow_succ, Nat.mod_mul]
    ring

theorem toNat_ofNat {width n : Nat} (h : n < 256 ^ width) : toNat (ofNat width n) = n := by
  rw [toNat_ofNat_mod, Nat.mod_eq_of_lt h]

theorem toNat_cons (b : UInt8) (bs : Bytes) : toNat (b :: bs) = b.toNat * 256 ^ bs.length + toNat bs := by
  rw [toNat, List.foldl_cons, foldl_toNat, Nat.mul_zero, Nat.zero_add]

theorem toNat_lt (bs : Bytes) : toNat bs < 256 ^ bs.length := by
  induction bs with
  | nil => exact Nat.one_pos
  | cons b bs ih =>
    rw [toNat_cons, List.length_cons, Nat.pow_succ']
    have hb : b.toNat + 1 ≤ 256 := b.toNat_lt
    have hfirst := Nat.mul_le_mul_right (256 ^ bs.length) hb
    rw [Nat.succ_mul] at hfirst
    omega

theorem toNat_inj {as bs : Bytes} (hlength : as.length = bs.length) (h : toNat as = toNat bs) : as = bs := by
  induction as generalizing bs with
  | nil => exact (List.eq_nil_of_length_eq_zero hlength.symm).symm
  | cons a as ih =>
    cases bs with
    | nil => cases hlength
    | cons b bs =>
      have hlength := Nat.succ.inj hlength
      have hfirst {c : UInt8} {cs : Bytes} (hcs : cs.length = as.length) :
          toNat (c :: cs) / 256 ^ as.length = c.toNat := by
        rw [toNat_cons, hcs, Nat.mul_comm, Nat.mul_add_div (Nat.pow_pos (by decide)),
          Nat.div_eq_of_lt (hcs ▸ toNat_lt cs), Nat.add_zero]
      have hab : a = b := by
        rw [← UInt8.toNat_inj, ← hfirst rfl, h, hfirst hlength.symm]
      rw [hab, toNat_cons, toNat_cons, hlength, Nat.add_left_cancel_iff] at h
      rw [hab, ih hlength h]

theorem toNat_padLeft (width : Nat) (bs : Bytes) : toNat (padLeft width bs) = toNat bs := by
  rw [padLeft]
  induction width - bs.length with
  | zero => rfl
  | succ n ih =>
    rw [List.replicate_succ, List.cons_append, toNat_cons, ih, UInt8.toNat_zero, Nat.zero_mul, Nat.zero_add]

theorem lt_pow_of_log2_lt {width n : Nat} (h : n.log2 < 8 * width) : n < 256 ^ width :=
  calc n < 2 ^ (n.log2 + 1) := Nat.lt_log2_self
    _ ≤ 2 ^ (8 * width) := Nat.pow_le_pow_right (by decide) h
    _ = 256 ^ width := by rw [Nat.pow_mul]

theorem log2_lt_of_lt_pow {width n : Nat} (hwidth : 0 < width) (h : n < 256 ^ width) : n.log2 < 8 * width := by
  rcases Nat.eq_zero_or_pos n with rfl | hn
  · rw [Nat.log2_zero]
    omega
  · rw [Nat.log2_lt (Nat.ne_of_gt hn), Nat.pow_mul]
    exact h

/-- As many bytes as there are tell all of them. -/
theorem ofNat_toNat (bs : Bytes) : ofNat bs.length (toNat bs) = bs := by
  apply toNat_inj
  · rw [length_ofNat]
  · rw [toNat_ofNat (toNat_lt bs)]

/-- Bytes with zeros in front are those of their number. -/
theorem padLeft_eq_ofNat {width : Nat} {bs : Bytes} (h : bs.length ≤ width) : padLeft width bs = ofNat width (toNat bs) := by
  have hlength : (padLeft width bs).length = width := by
    rw [padLeft, List.length_append, List.length_replicate, Nat.sub_add_cancel h]
  have hsmall : toNat bs < 256 ^ width := Nat.lt_of_lt_of_le (toNat_lt bs) (Nat.pow_le_pow_right (by decide) h)
  apply toNat_inj
  · rw [hlength, length_ofNat]
  · rw [toNat_padLeft, toNat_ofNat hsmall]

theorem hexDigit?_hexDigit {d : Nat} (h : d < 16) : (hexDigit d).hexDigit? = some d := by
  interval_cases d <;> rfl

theorem highDigit_lt (b : UInt8) : b.toNat / 16 < 16 := Nat.div_lt_of_lt_mul b.toNat_lt

theorem lowDigit_lt (b : UInt8) : b.toNat % 16 < 16 := Nat.mod_lt _ (by decide)

theorem ofNat_digits (b : UInt8) : UInt8.ofNat (16 * (b.toNat / 16) + b.toNat % 16) = b := by
  rw [Nat.div_add_mod, UInt8.ofNat_toNat]

theorem ofHex?_hex (bs : Bytes) : ofHex? (hex bs) = some bs := by
  induction bs with
  | nil => rfl
  | cons b bs ih =>
    change ofHex? (hexDigit (b.toNat / 16) :: hexDigit (b.toNat % 16) :: hex bs) = some (b :: bs)
    simp only [ofHex?, hexDigit?_hexDigit (highDigit_lt b), hexDigit?_hexDigit (lowDigit_lt b), ih]
    exact congrArg (fun first => some (first :: bs)) (ofNat_digits b)

theorem hex_injective : Function.Injective hex := by
  intro a b h
  have hread := congrArg ofHex? h
  rw [ofHex?_hex, ofHex?_hex] at hread
  exact Option.some.inj hread

end Signatory.Bytes
