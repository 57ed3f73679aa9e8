import Signatory.Text.Basic

/-! UTF-8. Writing fails on a surrogate; reading accepts the shortest form of every code point that
is no surrogate, and nothing else. -/

namespace Signatory.Text.Utf8
set_option autoImplicit false

/-- The bytes of one code point, surrogates written like any other three-byte form. -/
def encodePoint (p : CodePoint) : Bytes :=
  let n := p.val
  if n < 0x80 then [UInt8.ofNat n]
  else if n < 0x800 then [UInt8.ofNat (0xC0 + n / 64), UInt8.ofNat (0x80 + n % 64)]
  else if n < 0x10000 then
    [UInt8.ofNat (0xE0 + n / 4096), UInt8.ofNat (0x80 + n / 64 % 64), UInt8.ofNat (0x80 + n % 64)]
  else
    [UInt8.ofNat (0xF0 + n / 262144), UInt8.ofNat (0x80 + n / 4096 % 64),
      UInt8.ofNat (0x80 + n / 64 % 64), UInt8.ofNat (0x80 + n % 64)]

/-- The UTF-8 form of a text without surrogates. -/
def encode? (s : Text) : Option Bytes :=
  if s.any CodePoint.isSurrogate then none else some (s.flatMap encodePoint)

/-- The UTF-8 form with surrogates, if any, written in three bytes. -/
def encode (s : Text) : Bytes := s.flatMap encodePoint

/-- The first run of surrogates of a text, with its place. -/
def surrogateRun (s : Text) : Nat × Text :=
  let front := s.takeWhile (!·.isSurrogate)
  (front.length, (s.drop front.length).takeWhile CodePoint.isSurrogate)

/-- Why a text with surrogates has no UTF-8 form. -/
def refusal (s : Text) : Text :=
  let (place, run) := surrogateRun s
  let subject : Text :=
    match run with
    | [p] => .concat [" '\\u", ofHex 4 p.val, "' in position ", ofNat place]
    | _ => .concat ["s in position ", ofNat place, "-", ofNat (place + run.length - 1)]
  .concat ["'utf-8' codec can't encode character", subject, ": surrogates not allowed"]

def tail? (b : UInt8) : Option Nat :=
  if 0x80 ≤ b.toNat && b.toNat < 0xC0 then some (b.toNat - 0x80) else none

/-- A code point with the given value, unless it is too large, a surrogate, or below the least value
that needs this many bytes. -/
def point? (least n : Nat) : Option CodePoint :=
  if h : n < 0x110000 then
    if least ≤ n && !(0xD800 ≤ n && n < 0xE000) then some ⟨n, h⟩ else none
  else none

def decode? : Bytes → Option Text
  | [] => some []
  | a :: rest =>
    if a.toNat < 0x80 then do
      let p ← point? 0 a.toNat
      let s ← decode? rest
      return p :: s
    else if a.toNat < 0xC0 then none
    else if a.toNat < 0xE0 then
      match rest with
      | b :: rest => do
        let p ← point? 0x80 ((a.toNat - 0xC0) * 64 + (← tail? b))
        let s ← decode? rest
        return p :: s
      | _ => none
    else if a.toNat < 0xF0 then
      match rest with
      | b :: c :: rest => do
        let p ← point? 0x800 ((a.toNat - 0xE0) * 4096 + (← tail? b) * 64 + (← tail? c))
        let s ← decode? rest
        return p :: s
      | _ => none
    else
      match rest with
      | b :: c :: d :: rest => do
        let p ← point? 0x10000
          ((a.toNat - 0xF0) * 262144 + (← tail? b) * 4096 + (← tail? c) * 64 + (← tail? d))
        let s ← decode? rest
        return p :: s
      | _ => none

end Signatory.Text.Utf8
