import Signatory.Text.Digit

/-! Integers written by people: blanks around them, a sign, digits of any script, and single
underscores between digits. -/

namespace Signatory.Text.Numeral
set_option autoImplicit false

/-- Longest decimal numeral that is read or written, in digits. -/
def digitLimit : Nat := 4300

/-- Whether the numeral of an integer is not too long to be written. -/
def isWritable (i : Int) : Bool := decide ((Text.ofNat i.natAbs).length ≤ digitLimit)

/-- The values of digits that may have one underscore between neighbours. -/
def digits? (digit : CodePoint → Option Nat) : Text → Option (List Nat)
  | [] => none
  | [p] => (digit p).map ([·])
  | p :: q :: rest => do
    let d ← digit p
    if q.is '_' then return d :: (← digits? digit rest)
    else return d :: (← digits? digit (q :: rest))

/-- A sign, if there is one, and what follows it. -/
def sign : Text → Bool × Text
  | [] => (false, [])
  | p :: rest => if p.is '-' then (true, rest) else if p.is '+' then (false, rest) else (false, p :: rest)

def signed (negative : Bool) (n : Nat) : Int := if negative then -n else n

def decimalAscii? (s : Text) : Option Int := do
  let (negative, body) := sign s.strip
  let ds ← digits? CodePoint.digit? body
  if digitLimit < ds.length then none
  else return signed negative (ds.foldl (fun n d => 10 * n + d) 0)

def decimal? (s : Text) : Option Int := do decimalAscii? (← foldNumeral? s)

/-- The digits of a hexadecimal numeral after its optional mark `0x`, which one underscore may
follow. -/
def afterMark (s : Text) : Text :=
  match s with
  | z :: x :: rest =>
    if z.is '0' && x.isOneOf ['x', 'X'] then
      match rest with
      | u :: tail => if u.is '_' then tail else rest
      | [] => rest
    else s
  | _ => s

def hexadecimal? (s : Text) : Option Int := do
  let (negative, body) := sign (← foldNumeral? s).strip
  let ds ← digits? CodePoint.hexDigit? (afterMark body)
  return signed negative (ds.foldl (fun n d => 16 * n + d) 0)

end Signatory.Text.Numeral
