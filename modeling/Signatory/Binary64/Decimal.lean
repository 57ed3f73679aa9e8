import Signatory.Binary64.Basic
import Signatory.Text.Digit

/-! Decimal text of doubles. Writing takes the fewest digits that read back, of several the nearest;
it is positional while the decimal point falls within sixteen digits or up to four zeros after it. -/

namespace Signatory.Binary64
set_option autoImplicit false

abbrev tenTo (n : Nat) : Nat := Nat.pow 10 n

/-- The double nearest to `n * 10 ^ e`. Powers far out of range are settled without being computed. -/
def ofDecimal (negative : Bool) (n : Nat) (e : Int) : Binary64 :=
  let places : Int := (Nat.toDigits 10 n).length
  if n = 0 then ofRatio negative 0 1
  else if 400 < places + e then infinity negative
  else if places + e < -400 then ofRatio negative 0 1
  else
    match e with
    | .ofNat k => ofRatio negative (n * tenTo k) 1
    | .negSucc k => ofRatio negative n (tenTo (k + 1))

/-- The decimal places before the point of a positive ratio: the least `k` with `num / den < 10 ^ k`. -/
def pointPlace (num den : Nat) : Int :=
  if den ≤ num then (Nat.toDigits 10 (num / den)).length
  else
    let k := (Nat.toDigits 10 (den / num)).length
    if num * tenTo (k - 1) < den then 1 - (k : Int) else 2 - (k : Int)

/-- The neighbours of a ratio on the grid of multiples of `10 ^ e`, the nearer one first; a tie goes to
the even one. -/
def gridNeighbours (num den : Nat) (e : Int) : Nat × Nat :=
  let (n, d) :=
    match e with
    | .ofNat k => (num, den * tenTo k)
    | .negSucc k => (num * tenTo (k + 1), den)
  let low := n / d
  if roundDiv n d = low then (low, low + 1) else (low + 1, low)

/-- The first grid from the coarsest on, up to seventeen digits, with a neighbour that reads back as the
number `x` of the given ratio. -/
def shortestFrom (x : Binary64) (negative : Bool) (num den : Nat) (place : Int) :
    (attempts : Nat) → (digits : Nat) → Nat × Int
  | 0, digits => ((gridNeighbours num den (place - digits)).1, place - digits)
  | k + 1, digits =>
    let e := place - digits
    let (near, far) := gridNeighbours num den e
    if ofDecimal negative near e = x then (near, e)
    else if ofDecimal negative far e = x then (far, e)
    else shortestFrom x negative num den place k (digits + 1)

def dropZeros : (fuel : Nat) → Nat → Int → Nat × Int
  | 0, n, e => (n, e)
  | k + 1, n, e => if n % 10 = 0 then dropZeros k (n / 10) (e + 1) else (n, e)

/-- The fewest digits, as a number and a power of ten, that read back as the given positive double. -/
def shortest (x : Binary64) (negative : Bool) (m : Nat) (q : Int) : Nat × Int :=
  let (num, den) := scaledRatio m 1 q
  let (n, e) := shortestFrom x negative num den (pointPlace num den) 16 1
  dropZeros 20 n e

def zeros (n : Nat) : Text := List.replicate n (CodePoint.ofChar '0')

def renderDigits (n : Nat) (e : Int) : Text :=
  let digits := Text.ofNat n
  let point : Int := digits.length + e
  if -4 < point ∧ point ≤ 16 then
    if point ≤ 0 then Text.concat ["0.", zeros (-point).toNat, digits]
    else if digits.length ≤ point then
      Text.concat [digits, zeros (point - digits.length).toNat, ".0"]
    else Text.concat [digits.take point.toNat, ".", digits.drop point.toNat]
  else
    let exponent := point - 1
    let size := exponent.natAbs
    Text.concat [digits.take 1, if digits.length = 1 then [] else ".", digits.drop 1,
      if exponent < 0 then "e-" else "e+", if size < 10 then "0" else [], Text.ofNat size]

def render (x : Binary64) : Text :=
  match x.value with
  | .nan => "nan"
  | .infinite negative => if negative then "-inf" else "inf"
  | .finite negative m q =>
    let body : Text := if m = 0 then "0.0" else
      let (n, e) := shortest x negative m q
      renderDigits n e
    if negative then CodePoint.ofChar '-' :: body else body

/-- Digits before the point, digits after it, and the exponent, of an unsigned decimal numeral; also
what follows it. A point needs a digit on one side. -/
def scanDecimal? (s : Text) : Option ((List Nat × List Nat × Int) × Text) :=
  let (whole, rest) := Text.spanDigits s
  let (fraction, rest) :=
    match rest with
    | p :: tail => if p.is '.' then Text.spanDigits tail else ([], rest)
    | [] => ([], [])
  if whole.isEmpty && fraction.isEmpty then none
  else some (match exponent? rest with
    | some (e, tail) => ((whole, fraction, e), tail)
    | none => ((whole, fraction, 0), rest))
where
  exponent? : Text → Option (Int × Text)
    | [] => none
    | p :: rest =>
      if p.isOneOf ['e', 'E'] then
        let (negative, rest) :=
          match rest with
          | q :: tail => if q.is '-' then (true, tail) else if q.is '+' then (false, tail) else (false, rest)
          | [] => (false, [])
        let (ds, tail) := Text.spanDigits rest
        if ds.isEmpty then none
        else
          let n := Text.natOfDigits 0 ds
          some (if negative then -(n : Int) else n, tail)
      else none

def ofScanned (negative : Bool) (parts : List Nat × List Nat × Int) : Binary64 :=
  ofDecimal negative (Text.natOfDigits 0 (parts.1 ++ parts.2.1)) (parts.2.2 - parts.2.1.length)

def named? (negative : Bool) (s : Text) : Option Binary64 :=
  if s = ("inf" : Text) ∨ s = ("infinity" : Text) then some (infinity negative)
  else if s = ("nan" : Text) then some nan
  else none

/-- Underscores taken out; each must stand between two ASCII digits. `previous` tells whether a digit
comes before. -/
def dropUnderscores? (previous : Bool) : Text → Option Text
  | [] => some []
  | p :: rest =>
    if p.is '_' then
      if previous && ((rest.head?.bind CodePoint.digit?).isSome) then dropUnderscores? false rest
      else none
    else do return p :: (← dropUnderscores? p.digit?.isSome rest)

/-- A double written by people: blanks around it, a sign, a name or a decimal numeral in digits of any
script, single underscores between digits. -/
def parse? (s : Text) : Option Binary64 := do
  let body ← dropUnderscores? false (← Text.foldNumeral? s).strip
  let (negative, body) :=
    match body with
    | p :: rest => if p.is '-' then (true, rest) else if p.is '+' then (false, rest) else (false, body)
    | [] => (false, [])
  match named? negative (Text.toLower body) with
  | some x => some x
  | none =>
    match scanDecimal? body with
    | some (parts, []) => some (ofScanned negative parts)
    | _ => none

end Signatory.Binary64
