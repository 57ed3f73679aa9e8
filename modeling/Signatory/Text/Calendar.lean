import Signatory.Date
import Signatory.Text.Digit

/-! Dates, times of day and offsets from UTC in digits, at the front of a text. Each reader gives what follows. -/

namespace Signatory.Text.Calendar
set_option autoImplicit false

/-- A number of exactly so many digits in a range. -/
def field? (width least most : Nat) (s : Text) : Option (Nat × Text) := do
  let ds ← (s.take width).mapM CodePoint.digit?
  let n := Text.natOfDigits 0 ds
  if ds.length = width ∧ least ≤ n ∧ n ≤ most then some (n, s.drop width) else none

def clockTime? (s : Text) : Option Text := do
  let (_, s) ← field? 2 0 23 s
  let (_, s) ← field? 2 0 59 (← Text.afterFront? ":" s)
  let (_, s) ← field? 2 0 59 (← Text.afterFront? ":" s)
  match s with
  | p :: rest =>
    if p.is '.' then
      match Text.spanDigits rest with
      | ([], _) => return s
      | (_, rest) => return rest
    else return s
  | [] => return []

def zone (s : Text) : Text :=
  match s with
  | p :: rest =>
    if p.is 'Z' then rest
    else if p.isOneOf ['+', '-'] then
      (do
        let (_, r) ← field? 2 0 23 rest
        let (_, r) ← field? 2 0 59 (← Text.afterFront? ":" r)
        return r : Option Text).getD s
    else s
  | [] => []

/-- A date at the front: whether the calendar has it, and what follows. -/
def date? (s : Text) : Option (Bool × Text) := do
  let (year, s) ← field? 4 0 9999 s
  let (month, s) ← field? 2 1 12 (← Text.afterFront? "-" s)
  let (day, s) ← field? 2 1 31 (← Text.afterFront? "-" s)
  return (decide (1 ≤ year ∧ day ≤ Date.daysIn year month), s)

def isDate (s : Text) : Bool :=
  match date? s with
  | some (valid, rest) => valid && rest.isEmpty
  | none => false

def isInstant (s : Text) : Bool :=
  match date? s with
  | some (valid, rest) =>
    match (Text.afterFront? "T" rest).bind clockTime? with
    | some offset => valid && !offset.isEmpty && (zone offset).isEmpty
    | none => false
  | none => false

end Signatory.Text.Calendar
