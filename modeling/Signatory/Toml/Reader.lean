import Signatory.Toml.Token

/-! Reading a TOML document: a table of values under keys, with sections that open tables and lists of tables. What
was declared once, or was complete as it was written, is not opened again. -/

namespace Signatory.Toml
set_option autoImplicit false

/-- Places a value at a dotted key of a table that is written in one piece. -/
def addInline (path : Path) (v : Toml) (marks : Marks) (t : Table) : Option (Table × Marks) :=
  match path.getLast? with
  | none => none
  | some stem =>
    if marks.isComplete path then none
    else do
      let t ← changeAt false (addNew stem v) path.dropLast t
      return (t, match v with
        | list _ => (path, .complete) :: marks
        | table _ => (path, .complete) :: marks
        | _ => marks)

mutual

def value? : (fuel : Nat) → Text → Option (Toml × Text)
  | 0, _ => none
  | _, [] => none
  | n + 1, p :: rest =>
    if p.isOneOf ['"', '\''] then (string? (p :: rest)).map fun r => (.text r.1, r.2)
    else if p.is '[' then (items? n rest).map fun r => (.list r.1, r.2)
    else if p.is '{' then
      match skipBlanks rest with
      | [] => none
      | q :: tail =>
        if q.is '}' then some (.table [], tail)
        else (fields? n [] [] (q :: tail)).map fun r => (.table r.1, r.2)
    else
      match after? "true" (p :: rest), after? "false" (p :: rest) with
      | some rest, _ => some (.bool true, rest)
      | _, some rest => some (.bool false, rest)
      | none, none =>
        match moment? (p :: rest) with
        | some (v?, rest) => v?.map fun v => (v, rest)
        | none => number? (p :: rest)

/-- The items of a list from one of them on, or from its end. -/
def items? : (fuel : Nat) → Text → Option (List Toml × Text)
  | 0, _ => none
  | n + 1, s => do
    match ← skipLines? s.length s with
    | [] => none
    | p :: rest =>
      if p.is ']' then return ([], rest)
      let (v, rest) ← value? n (p :: rest)
      match ← skipLines? rest.length rest with
      | [] => none
      | q :: rest =>
        if q.is ']' then return ([v], rest)
        if !q.is ',' then none
        let (vs, rest) ← items? n rest
        return (v :: vs, rest)

/-- The fields of a table in one piece, from one of them on. -/
def fields? : (fuel : Nat) → Marks → Table → Text → Option (Table × Text)
  | 0, _, _, _ => none
  | n + 1, marks, t, s => do
    let (path, v, rest) ← pair? n s
    let (t, marks) ← addInline path v marks t
    match skipBlanks rest with
    | [] => none
    | p :: rest =>
      if p.is '}' then return (t, rest)
      if !p.is ',' then none
      fields? n marks t (skipBlanks rest)

def pair? : (fuel : Nat) → Text → Option (Path × Toml × Text)
  | 0, _ => none
  | n + 1, s => do
    let (path, rest) ← key? s.length s
    let rest ← after? "=" rest
    let (v, rest) ← value? n (skipBlanks rest)
    return (path, v, rest)

end

structure Progress where
  root : Table
  marks : Marks
  /-- Tables that dotted keys opened in the present section; the next section finds them declared. -/
  pending : List Path
  /-- The path of the present section. -/
  base : Path

namespace Progress

def start : Progress := ⟨[], [], [], []⟩

/-- The beginning of a section: what dotted keys opened before counts as declared. -/
def settle (p : Progress) : Progress :=
  { p with marks := p.pending.map (fun path => (path, .declared)) ++ p.marks, pending := [] }

def openTable (path : Path) (p : Progress) : Option Progress := do
  let p := p.settle
  if p.marks.isDeclared path || p.marks.isComplete path then none
  let root ← changeAt true some path p.root
  return { p with root, marks := (path, .declared) :: p.marks, base := path }

def openItem (path : Path) (p : Progress) : Option Progress := do
  let p := p.settle
  if p.marks.isComplete path then none
  let stem ← path.getLast?
  let root ← changeAt true (addItem stem) path.dropLast p.root
  return { p with root, marks := (path, .declared) :: p.marks.forget path, base := path }

/-- The paths to the tables that a dotted key leads through. -/
def leading (base path : Path) : List Path :=
  (List.range (path.length - 1)).map fun i => base ++ path.take (i + 1)

def add (path : Path) (v : Toml) (p : Progress) : Option Progress := do
  let stem ← path.getLast?
  let parent := p.base ++ path.dropLast
  let passed := leading p.base path
  if passed.any p.marks.isDeclared || (!parent.isEmpty && p.marks.isComplete parent) then none
  let root ← changeAt true (addNew stem v) parent p.root
  let marks :=
    match v with
    | list _ => (p.base ++ path, .complete) :: p.marks
    | table _ => (p.base ++ path, .complete) :: p.marks
    | _ => p.marks
  return { p with root, marks, pending := passed ++ p.pending }

end Progress

def sectionKey? (closing : Text) (s : Text) : Option (Path × Text) := do
  let (path, rest) ← key? s.length (skipBlanks s)
  return (path, ← after? closing rest)

/-- One statement and what follows it. -/
def statement? (p : Progress) (s : Text) : Option (Progress × Text) :=
  match after? "[[" s, after? "[" s with
  | some rest, _ => do
    let (path, rest) ← sectionKey? "]]" rest
    return (← p.openItem path, rest)
  | none, some rest => do
    let (path, rest) ← sectionKey? "]" rest
    return (← p.openTable path, rest)
  | none, none => do
    let (path, v, rest) ← pair? (2 * s.length + 2) s
    return (← p.add path v, skipBlanks rest)

/-- The end of a line: blanks and a comment may stand before it. -/
def lineEnd? (s : Text) : Option Text := do
  match ← skipComment? (skipBlanks s) with
  | [] => some []
  | p :: rest => if p.is '\n' then some rest else none

def lines? : (fuel : Nat) → Progress → Text → Option Table
  | 0, _, _ => none
  | n + 1, p, s =>
    match skipBlanks s with
    | [] => some p.root
    | q :: rest =>
      if q.is '\n' then lines? n p rest
      else if q.is '#' then do
        lines? n p (← lineEnd? (q :: rest))
      else do
        let (p, rest) ← statement? p (q :: rest)
        lines? n p (← lineEnd? rest)

/-- A line break of two characters counts as one. -/
def joinBreaks : Text → Text
  | [] => []
  | [p] => [p]
  | p :: q :: rest => if p.val = 13 && q.is '\n' then q :: joinBreaks rest else p :: joinBreaks (q :: rest)

def parse? (s : Text) : Option Table :=
  let s := joinBreaks s
  lines? (s.length + 1) .start s

end Signatory.Toml
