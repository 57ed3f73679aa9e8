/-! Text as a list of Unicode code points. Surrogates are code points here: a text read from
escapes may hold a surrogate that stands alone, which no `Char` can. -/

namespace Signatory
set_option autoImplicit false

/-- A Unicode code point, the surrogates included. -/
abbrev CodePoint := Fin 0x110000

abbrev Text := List CodePoint

abbrev Bytes := List UInt8

namespace CodePoint

def ofChar (c : Char) : CodePoint :=
  ⟨c.toNat, by
    rcases c.valid with h | ⟨_, h⟩
    · exact Nat.lt_trans h (by decide)
    · exact h⟩

def ofByte (b : UInt8) : CodePoint := ⟨b.toNat, Nat.lt_trans b.toNat_lt (by decide)⟩

def is (p : CodePoint) (c : Char) : Bool := p.val == c.toNat

def isOneOf (p : CodePoint) (cs : List Char) : Bool := cs.any p.is

/-- Whether a code point lies between two characters, both included. -/
def within (p : CodePoint) (low high : Char) : Bool :=
  low.toNat ≤ p.val && p.val ≤ high.toNat

def isHighSurrogate (p : CodePoint) : Bool := 0xD800 ≤ p.val && p.val < 0xDC00

def isLowSurrogate (p : CodePoint) : Bool := 0xDC00 ≤ p.val && p.val < 0xE000

def isSurrogate (p : CodePoint) : Bool := 0xD800 ≤ p.val && p.val < 0xE000

def digit? (p : CodePoint) : Option Nat :=
  if p.within '0' '9' then some (p.val - 48) else none

/-- The value of an ASCII hexadecimal digit of either case. -/
def hexDigit? (p : CodePoint) : Option Nat :=
  if p.within '0' '9' then some (p.val - 48)
  else if p.within 'a' 'f' then some (p.val - 87)
  else if p.within 'A' 'F' then some (p.val - 55)
  else none

/-- The small letter of an ASCII capital; every other code point is left alone. -/
def toLower (p : CodePoint) : CodePoint :=
  if h : p.within 'A' 'Z' then
    ⟨p.val + 32, by
      simp only [within, Bool.and_eq_true, decide_eq_true_eq] at h
      have h2 : p.val ≤ 90 := h.2
      omega⟩
  else p

end CodePoint

namespace Text

def ofString (s : String) : Text := s.toList.map CodePoint.ofChar

instance : Coe String Text := ⟨ofString⟩

def concat (parts : List Text) : Text := parts.flatten

def join (separator : Text) (parts : List Text) : Text := (parts.intersperse separator).flatten

def ofNat (n : Nat) : Text := (Nat.toDigits 10 n).map CodePoint.ofChar

def ofInt : Int → Text
  | .ofNat n => ofNat n
  | .negSucc n => CodePoint.ofChar '-' :: ofNat (n + 1)

/-- The number in base sixteen, small letters, at least `width` digits. -/
def ofHex (width n : Nat) : Text :=
  let digits := (Nat.toDigits 16 n).map CodePoint.ofChar
  List.replicate (width - digits.length) (CodePoint.ofChar '0') ++ digits

/-- The value of a run of decimal digits read after `acc`. -/
def natOfDigits (acc : Nat) (ds : List Nat) : Nat := ds.foldl (fun n d => 10 * n + d) acc

/-- The longest run of ASCII digits at the front, as values, and what follows it. -/
def spanDigits : Text → List Nat × Text
  | [] => ([], [])
  | c :: rest =>
    match c.digit? with
    | some d => let (ds, tail) := spanDigits rest; (d :: ds, tail)
    | none => ([], c :: rest)

/-- What follows `front` in a text that begins with it. -/
def afterFront? (front s : Text) : Option Text :=
  if s.take front.length = front then some (s.drop front.length) else none

/-- The order of texts by code point, the shorter of two first when it begins the other. -/
def le : Text → Text → Bool
  | [], _ => true
  | _ :: _, [] => false
  | a :: as, b :: bs => a.val < b.val || (a.val == b.val && le as bs)

def toLower (s : Text) : Text := s.map CodePoint.toLower

end Text

namespace Bytes

def hexDigit (n : Nat) : CodePoint :=
  if n < 10 then CodePoint.ofChar (Char.ofNat (48 + n)) else CodePoint.ofChar (Char.ofNat (87 + n))

def hex (bs : Bytes) : Text :=
  bs.flatMap fun b => [hexDigit (b.toNat / 16), hexDigit (b.toNat % 16)]

/-- Pairs of hexadecimal digits and nothing else. -/
def ofHex? : Text → Option Bytes
  | [] => some []
  | [_] => none
  | a :: b :: rest => do
    let high ← a.hexDigit?
    let low ← b.hexDigit?
    let tail ← ofHex? rest
    return (UInt8.ofNat (16 * high + low)) :: tail

/-- The number whose big-endian digits in base 256 the bytes are. -/
def toNat (bs : Bytes) : Nat := bs.foldl (fun n b => 256 * n + b.toNat) 0

/-- The low `width` bytes of a number, most significant first. -/
def ofNat (width n : Nat) : Bytes :=
  match width with
  | 0 => []
  | w + 1 => UInt8.ofNat (n / Nat.pow 256 w % 256) :: ofNat w n

def padLeft (width : Nat) (bs : Bytes) : Bytes := List.replicate (width - bs.length) 0 ++ bs

def padRight (width : Nat) (bs : Bytes) : Bytes := bs ++ List.replicate (width - bs.length) 0

end Bytes

end Signatory
