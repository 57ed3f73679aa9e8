import Signatory.Error
import Signatory.Text.Digit

/-! Addresses of eight bytes, and their hexadecimal text. -/

namespace Signatory.Address
set_option autoImplicit false

def size : Nat := 8

/-- Pairs of hexadecimal digits with ASCII blanks before, between and after the pairs. -/
def spacedHex? : Text → Option Bytes
  | [] => some []
  | p :: rest =>
    if p.isAsciiBlank then spacedHex? rest
    else
      match rest with
      | [] => none
      | q :: rest => do
        let high ← p.hexDigit?
        let low ← q.hexDigit?
        return UInt8.ofNat (16 * high + low) :: (← spacedHex? rest)

/-- The address a text denotes: after one `0x` if there is one, completed to pairs of digits by a zero in
front, and to eight bytes by zero bytes in front. -/
def ofText (given : Text) : Except Error Bytes :=
  let digits := (Text.afterFront? "0x" given).getD given
  let paired := if digits.length % 2 = 1 then CodePoint.ofChar '0' :: digits else digits
  match spacedHex? paired with
  | none => .error (.addressText given)
  | some raw =>
    if size < raw.length then .error (.addressTooLong raw.length) else .ok (Bytes.padLeft size raw)

end Signatory.Address
