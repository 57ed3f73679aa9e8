import Signatory.Error

/-! Fields of a record, checked together: one error tells the problems of all of them. -/

namespace Signatory
set_option autoImplicit false

/-- A field of a record, or what is wrong with it. -/
abbrev Checked (α : Type) := Except (List FieldProblem) α

namespace Checked

variable {α β : Type}

/-- Two fields together, with the problems of both. -/
def and (a : Checked α) (b : Checked β) : Checked (α × β) :=
  match a, b with
  | .ok x, .ok y => .ok (x, y)
  | .error ps, .error qs => .error (ps ++ qs)
  | .error ps, .ok _ => .error ps
  | .ok _, .error qs => .error qs

def settle (a : Checked α) : Except Error α :=
  match a with
  | .ok x => .ok x
  | .error problems => .error (.invalid problems)

def fault (place : Text) (fault : FieldFault) : Checked α := .error [⟨place, fault⟩]

end Checked

end Signatory
