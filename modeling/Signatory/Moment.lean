import Signatory.Date
import Signatory.Error

/-! Readings of a wall clock to the microsecond, in the years 1 to 9999 of the proleptic Gregorian calendar,
and the seconds and nanoseconds in which instants travel. -/

namespace Signatory
set_option autoImplicit false

structure Moment where
  /-- Microseconds between the start of 1970 and the reading, both on the clock itself. -/
  micros : Int
  /-- Microseconds by which the clock is ahead of UTC; a clock without a zone is taken for UTC. -/
  offset : Option Int
  deriving DecidableEq, Repr

/-- A date with a time of day. -/
structure Civil where
  date : Date
  hour : Int
  minute : Int
  second : Int
  micro : Int
  deriving DecidableEq, Repr

/-- An instant as it travels: whole seconds since 1970 in UTC, and nanoseconds after them. -/
structure Timestamp where
  seconds : Int
  nanos : Int
  deriving DecidableEq, Repr

namespace Moment

def second : Int := 1000000

def minute : Int := 60 * second

def hour : Int := 60 * minute

def day : Int := 24 * hour

def firstSecond : Int := -62135596800

def lastSecond : Int := 253402300799

def inCalendar (micros : Int) : Bool :=
  firstSecond ≤ micros / second && micros / second ≤ lastSecond

/-- The largest number of days that an offset may be written in. -/
def maxOffsetDays : Nat := 999999999

/-- An offset is less than a day either way. -/
def checkOffset (offset : Int) : Except Error Unit :=
  if maxOffsetDays < (offset / day).natAbs then .error .overflow
  else if day ≤ offset.natAbs then .error .unreadable
  else .ok ()

/-- The reading of a clock; its offset is looked at before its date. -/
def make (micros : Int) (offset : Option Int) : Except Error Moment := do
  if let some ahead := offset then checkOffset ahead
  if inCalendar micros then return ⟨micros, offset⟩ else .error .overflow

/-- The same instant on a clock of UTC. -/
def utcMicros (t : Moment) : Int := t.micros - t.offset.getD 0

def padded (width : Nat) (n : Int) : Text :=
  let digits := Text.ofInt n
  List.replicate (width - digits.length) (CodePoint.ofChar '0') ++ digits

/-- Seconds are left out when they are zero, and so is their fraction. -/
def renderOffset (offset : Int) : Text :=
  let size := (offset.natAbs : Int)
  .concat [if offset < 0 then "-" else "+", padded 2 (size / hour), ":", padded 2 (size / minute % 60),
    if size % minute = 0 then [] else .concat [":", padded 2 (size / second % 60)],
    if size % second = 0 then [] else .concat [".", padded 6 (size % second)]]

/-- The date and the time of day that the clock shows. -/
def civil (t : Moment) : Civil :=
  let seconds := t.micros / second
  let ofDay := seconds % 86400
  ⟨Date.ofDays (seconds / 86400), ofDay / 3600, ofDay / 60 % 60, ofDay % 60, t.micros % second⟩

/-- Date and time of day with a `T` between them; the fraction is left out when it is zero, the offset when
there is none. -/
def render (t : Moment) : Text :=
  let c := t.civil
  .concat [padded 4 c.date.year, "-", padded 2 c.date.month, "-", padded 2 c.date.day, "T",
    padded 2 c.hour, ":", padded 2 c.minute, ":", padded 2 c.second,
    if c.micro = 0 then [] else .concat [".", padded 6 c.micro], (t.offset.map renderOffset).getD []]

/-- The instant of a reading. Reading and instant must lie in the calendar. This is the conversion as it is documented: by
the whole offset, fractions of a second included. A conversion that takes the microseconds of the reading as they are
differs from it for offsets with such a fraction. -/
def toTimestamp (t : Moment) : Except Error Timestamp :=
  if inCalendar t.micros && inCalendar t.utcMicros then
    .ok ⟨t.utcMicros / second, t.utcMicros % second * 1000⟩
  else .error .overflow

end Moment

/-- The reading of a UTC clock at an instant, down to the microsecond. -/
def Timestamp.toMoment (w : Timestamp) : Except Error Moment :=
  if Moment.firstSecond ≤ w.seconds ∧ w.seconds ≤ Moment.lastSecond ∧ 0 ≤ w.nanos ∧ w.nanos < 1000000000 then
    .ok ⟨w.seconds * Moment.second + w.nanos / 1000, some 0⟩
  else .error .unreadable

end Signatory
