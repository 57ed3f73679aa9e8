import Signatory.Binary64.Basic
import Signatory.Text.Basic

/-! Hexadecimal text of doubles. Every finite double has one: its leading binary digit, the fraction in thirteen
digits of base sixteen, and a power of two. -/

namespace Signatory.Binary64
set_option autoImplicit false

def renderPower (e : Int) : Text := .concat ["p", if e < 0 then "-" else "+", Text.ofNat e.natAbs]

def renderHex (x : Binary64) : Text :=
  match x.value with
  | .nan => "nan"
  | .infinite negative => if negative then "-inf" else "inf"
  | .finite negative m q =>
    let places := BinaryFormat.double.fractionBits
    let body : Text :=
      if m = 0 then "0x0.0p+0"
      else .concat ["0x", Text.ofNat (m / twoTo places), ".", Text.ofHex 13 (m % twoTo places), renderPower (q + places)]
    if negative then CodePoint.ofChar '-' :: body else body

end Signatory.Binary64
