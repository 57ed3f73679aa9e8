import Signatory.Binary64.Basic
import Signatory.OrderedMap
import Signatory.Text.Basic

/-! TOML values, and tables that grow as a document is read. Under a key that leads through a list of tables, the
table meant is the last one. -/

namespace Signatory
set_option autoImplicit false

inductive Toml where
  | text (s : Text)
  | int (i : Int)
  | float (x : Binary64)
  | bool (b : Bool)
  /-- A date, a time of day, or both, as written. -/
  | moment (written : Text)
  | list (items : List Toml)
  | table (entries : List (Text × Toml))

namespace Toml

abbrev Table := List (Text × Toml)

abbrev Path := List Text

/-- The table that a value is, or, of a list, the last item. -/
def asTable? (throughLists : Bool) : Toml → Option Table
  | table entries => some entries
  | list items =>
    match throughLists, items.getLast? with
    | true, some (table entries) => some entries
    | _, _ => none
  | _ => none

def withTable (entries : Table) : Toml → Toml
  | list items => list (items.dropLast ++ [table entries])
  | _ => table entries

/-- Changes the table at a path; tables that are not there yet are made, other values are in the way. -/
def changeAt (throughLists : Bool) (f : Table → Option Table) : Path → Table → Option Table
  | [], t => f t
  | k :: path, t => do
    let inner := (Entries.find? k t).getD (table [])
    let entries ← changeAt throughLists f path (← asTable? throughLists inner)
    return Entries.insert k (withTable entries inner) t

def addNew (k : Text) (v : Toml) (t : Table) : Option Table :=
  if (Entries.find? k t).isSome then none else some (Entries.insert k v t)

/-- One more table at the end of the list under a key. -/
def addItem (k : Text) (t : Table) : Option Table :=
  match Entries.find? k t with
  | none => some (Entries.insert k (list [table []]) t)
  | some (list items) => some (Entries.insert k (list (items ++ [table []])) t)
  | some _ => none

inductive Mark where
  /-- The table was declared, and is not declared again. -/
  | declared
  /-- The value is complete, and all that is in it. -/
  | complete
  deriving DecidableEq, Repr

abbrev Marks := List (Path × Mark)

namespace Marks

def isComplete (marks : Marks) (path : Path) : Bool :=
  marks.any fun m => m.2 = .complete && m.1.isPrefixOf path

def isDeclared (marks : Marks) (path : Path) : Bool := marks.contains (path, .declared)

/-- Without what is known of a path and of all that is in it. -/
def forget (marks : Marks) (path : Path) : Marks := marks.filter fun m => !path.isPrefixOf m.1

end Marks

end Toml

end Signatory
