import Signatory.Moment

/-! A clock that advances by a fixed step with every reading. -/

namespace Signatory.Scenario
set_option autoImplicit false

structure SteppingClock where
  /-- The first reading, in microseconds since 1970. -/
  start : Int
  /-- Microseconds between two readings. -/
  step : Int
  offset : Option Int

def SteppingClock.reading (c : SteppingClock) (n : Nat) : Except Error Moment :=
  Moment.make (c.start + n * c.step) c.offset

end Signatory.Scenario
