/-! Positions in a list. One below zero counts from the end. -/

namespace Signatory.Scenario.Position
set_option autoImplicit false

/-- The place of an item, if there is one at the position. -/
def place? (length : Nat) (position : Int) : Option Nat :=
  let place := if position < 0 then position + length else position
  if 0 ≤ place ∧ place < length then some place.toNat else none

/-- The nearest gap between items, before the first and after the last included. -/
def gap (length : Nat) (position : Int) : Nat :=
  if position < 0 then (position + length).toNat else min position.toNat length

/-- The list with an item in place of what stands between the gaps at a position and at the next one. -/
def put {α : Type} (position : Int) (x : α) (xs : List α) : List α :=
  let start := gap xs.length position
  xs.take start ++ x :: xs.drop (max start (gap xs.length (position + 1)))

end Signatory.Scenario.Position
