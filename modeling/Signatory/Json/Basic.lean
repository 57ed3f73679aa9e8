import Signatory.Number
import Signatory.OrderedMap

/-! JSON values. Integers are exact, other numbers are doubles, and an object keeps the order in which
its keys came. Two values are alike when they differ at most in that order and in the kind of their
numbers. -/

namespace Signatory
set_option autoImplicit false

inductive Json where
  | null
  | bool (b : Bool)
  | int (i : Int)
  | float (x : Binary64)
  | text (s : Text)
  | list (items : List Json)
  | object (fields : List (Text × Json))

namespace Json

instance : Inhabited Json := ⟨null⟩

def field? (name : Text) : Json → Option Json
  | object fields => Entries.find? name fields
  | _ => none

/-- The number a scalar stands for; a truth value counts as 0 or 1. -/
def number? : Json → Option Number
  | bool b => some (.int (if b then 1 else 0))
  | int i => some (.int i)
  | float x => some (.float x)
  | _ => none

/-- Equality of scalars, numbers by value; what is no number equals itself. -/
def alikeScalar : Json → Json → Bool
  | null, null => true
  | text s, text t => s == t
  | float x, float y => decide (x = y) || x.value.numEq y.value
  | v, w =>
    match v.number?, w.number? with
    | some a, some b => a == b
    | _, _ => false

mutual

/-- Equality up to the order of keys and the kind of numbers. -/
def alike : Json → Json → Bool
  | list xs, list ys => alikeAll xs ys
  | object fs, object gs => fs.length == gs.length && alikeFields fs gs
  | v, w => alikeScalar v w

def alikeAll : List Json → List Json → Bool
  | [], [] => true
  | v :: vs, w :: ws => alike v w && alikeAll vs ws
  | _, _ => false

def alikeFields : List (Text × Json) → List (Text × Json) → Bool
  | [], _ => true
  | (k, v) :: fs, gs =>
    (match Entries.find? k gs with
      | some w => alike v w
      | none => false) && alikeFields fs gs

end

end Json

end Signatory
