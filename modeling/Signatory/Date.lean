/-! Dates of the proleptic Gregorian calendar, and the days since the first of January 1970. -/

namespace Signatory
set_option autoImplicit false

structure Date where
  year : Int
  month : Int
  day : Int
  deriving DecidableEq, Repr

namespace Date

def isLeap (year : Int) : Bool := year % 4 = 0 && (year % 100 ≠ 0 || year % 400 = 0)

def daysIn (year month : Int) : Int :=
  if month = 2 then if isLeap year then 29 else 28
  else if [4, 6, 9, 11].contains month then 30
  else 31

/-- The date a number of days after the first of March of a year, at most a year later. -/
def ofMarch (year dayOfYear : Int) : Date :=
  let marchMonth := (5 * dayOfYear + 2) / 153
  let month := if marchMonth < 10 then marchMonth + 3 else marchMonth - 9
  ⟨if month ≤ 2 then year + 1 else year, month, dayOfYear - (153 * marchMonth + 2) / 5 + 1⟩

/-- The date a number of days after the first of January 1970. Years are counted from March, so that a leap
day ends its year, in eras of 400 years. -/
def ofDays (days : Int) : Date :=
  let shifted := days + 719468
  let era := shifted / 146097
  let dayOfEra := shifted % 146097
  let yearOfEra := (dayOfEra - dayOfEra / 1460 + dayOfEra / 36524 - dayOfEra / 146096) / 365
  ofMarch (400 * era + yearOfEra) (dayOfEra - (365 * yearOfEra + yearOfEra / 4 - yearOfEra / 100))

end Date

end Signatory
