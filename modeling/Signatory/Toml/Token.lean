import Signatory.Binary64.Decimal
import Signatory.Text.Calendar
import Signatory.Text.Numeral
import Signatory.Toml.Basic

/-! The parts of TOML that hold no others: blanks and comments, strings, keys, numbers and dates. Each reader takes
the text from a place on and gives what it read with the rest. -/

namespace Signatory.Toml
set_option autoImplicit false
open Text.Calendar

def isBlank (p : CodePoint) : Bool := p.isOneOf [' ', '\t']

def isBlankOrBreak (p : CodePoint) : Bool := p.isOneOf [' ', '\t', '\n']

def skipBlanks (s : Text) : Text := s.dropWhile isBlank

/-- Control characters other than the tab have no place in strings and comments. -/
def isForbidden (p : CodePoint) : Bool := (p.val < 32 && !p.is '\t') || p.val == 127

def skipComment? (s : Text) : Option Text :=
  match s with
  | p :: _ =>
    if p.is '#' then
      let line := s.takeWhile (!·.is '\n')
      if line.any isForbidden then none else some (s.drop line.length)
    else some s
  | [] => some []

/-- Blanks, line breaks and comments between the items of a list. -/
def skipLines? : (fuel : Nat) → Text → Option Text
  | 0, s => some s
  | n + 1, s => do
    let s := s.dropWhile isBlankOrBreak
    let rest ← skipComment? s
    if rest.length = s.length then some s else skipLines? n rest

def after? (word : Text) (s : Text) : Option Text := Text.afterFront? word s

def hexPoint? (digits : Nat) (s : Text) : Option (CodePoint × Text) := do
  let ds ← (s.take digits).mapM CodePoint.hexDigit?
  if ds.length ≠ digits then none
  let n := ds.foldl (fun n d => 16 * n + d) 0
  if h : n < 0x110000 then
    if 0xD800 ≤ n ∧ n < 0xE000 then none else some (⟨n, h⟩, s.drop digits)
  else none

def escape? : Text → Option (CodePoint × Text)
  | [] => none
  | p :: rest =>
    if p.isOneOf ['"', '\\'] then some (p, rest)
    else if p.is 'b' then some (.ofChar '\x08', rest)
    else if p.is 't' then some (.ofChar '\t', rest)
    else if p.is 'n' then some (.ofChar '\n', rest)
    else if p.is 'f' then some (.ofChar '\x0c', rest)
    else if p.is 'r' then some (.ofChar '\r', rest)
    else if p.is 'u' then hexPoint? 4 rest
    else if p.is 'U' then hexPoint? 8 rest
    else none

/-- A string in double quotes on one line, after the opening quote. -/
def basic? : (fuel : Nat) → Text → Option (Text × Text)
  | 0, _ => none
  | _, [] => none
  | n + 1, p :: rest =>
    if p.is '"' then some ([], rest)
    else if p.is '\\' then do
      let (q, rest) ← escape? rest
      let (s, rest) ← basic? n rest
      return (q :: s, rest)
    else if isForbidden p then none
    else do
      let (s, rest) ← basic? n rest
      return (p :: s, rest)

/-- The text after a backslash that ends its line: blanks, line breaks and blanks again. -/
def foldLine? (s : Text) : Option Text :=
  match skipBlanks s with
  | [] => some []
  | p :: rest => if p.is '\n' then some (rest.dropWhile isBlankOrBreak) else none

/-- The end of a string of several lines: up to two quotes more belong to the string. -/
def closing (quote : CodePoint) (s : Text) : Text × Text :=
  let extra := (s.take 2).takeWhile (· = quote)
  (extra, s.drop extra.length)

def threeOf (quote : CodePoint) : Text := [quote, quote, quote]

/-- A string in three double quotes, after those. -/
def basicLines? : (fuel : Nat) → Text → Option (Text × Text)
  | 0, _ => none
  | _, [] => none
  | n + 1, p :: rest =>
    if p.is '"' && (p :: rest).take 3 == threeOf p then some (closing p (rest.drop 2))
    else if p.is '\\' then
      if (rest.head?.map isBlankOrBreak).getD false then do
        basicLines? n (← foldLine? rest)
      else do
        let (q, rest) ← escape? rest
        let (s, rest) ← basicLines? n rest
        return (q :: s, rest)
    else if isForbidden p && !p.is '\n' then none
    else do
      let (s, rest) ← basicLines? n rest
      return (p :: s, rest)

/-- A string in single quotes on one line, after the opening quote. -/
def literal? (s : Text) : Option (Text × Text) :=
  let body := s.takeWhile (!·.is '\'')
  if body.any isForbidden || body.length = s.length then none
  else some (body, s.drop (body.length + 1))

/-- A string in three single quotes, after those. -/
def literalLines? : Text → Option (Text × Text)
  | [] => none
  | p :: rest =>
    if p.is '\'' && (p :: rest).take 3 == threeOf p then some (closing p (rest.drop 2))
    else if isForbidden p && !p.is '\n' then none
    else do
      let (s, rest) ← literalLines? rest
      return (p :: s, rest)

/-- A line break at the front is no part of a string of several lines. -/
def dropBreak (s : Text) : Text :=
  match s with
  | p :: rest => if p.is '\n' then rest else s
  | [] => []

/-- A string of any of the four kinds. -/
def string? (s : Text) : Option (Text × Text) :=
  match s with
  | [] => none
  | p :: rest =>
    if p.is '"' then
      if s.take 3 == threeOf p then basicLines? s.length (dropBreak (s.drop 3)) else basic? s.length rest
    else if p.is '\'' then
      if s.take 3 == threeOf p then literalLines? (dropBreak (s.drop 3)) else literal? rest
    else none

def isBareKey (p : CodePoint) : Bool :=
  p.within 'a' 'z' || p.within 'A' 'Z' || p.within '0' '9' || p.isOneOf ['-', '_']

/-- One part of a key: bare, or in quotes on one line. -/
def keyPart? (s : Text) : Option (Text × Text) :=
  match s with
  | [] => none
  | p :: rest =>
    if p.is '"' then basic? s.length rest
    else if p.is '\'' then literal? rest
    else
      let bare := s.takeWhile isBareKey
      if bare.isEmpty then none else some (bare, s.drop bare.length)

def key? : (fuel : Nat) → Text → Option (Path × Text)
  | 0, _ => none
  | n + 1, s => do
    let (part, rest) ← keyPart? s
    match skipBlanks rest with
    | [] => return ([part], [])
    | p :: tail =>
      if p.is '.' then
        let (path, rest) ← key? n (skipBlanks tail)
        return (part :: path, rest)
      else return ([part], p :: tail)

/-- Digits at the front, a single underscore allowed between two of them. -/
def digits (digit : CodePoint → Option Nat) : Text → List Nat × Text
  | [] => ([], [])
  | [p] =>
    match digit p with
    | some d => ([d], [])
    | none => ([], [p])
  | p :: q :: rest =>
    match digit p with
    | none => ([], p :: q :: rest)
    | some d =>
      match q.is '_', rest with
      | true, r :: _ =>
        if (digit r).isSome then
          let (ds, tail) := digits digit rest
          (d :: ds, tail)
        else ([d], q :: rest)
      | _, _ =>
        let (ds, tail) := digits digit (q :: rest)
        (d :: ds, tail)

def digitBelow (bound : Nat) (p : CodePoint) : Option Nat := p.hexDigit?.filter (· < bound)

/-- A number in base sixteen, eight or two, after its zero. -/
def based? (s : Text) : Option (Toml × Text) :=
  match s with
  | [] => none
  | p :: rest =>
    let base := if p.is 'x' then 16 else if p.is 'o' then 8 else if p.is 'b' then 2 else 0
    match digits (digitBelow base) rest with
    | ([], _) => none
    | (ds, rest) => some (.int (ds.foldl (fun n d => base * n + d) 0 : Nat), rest)

def places (s : Text) : List Nat × Text :=
  match s with
  | p :: rest =>
    if p.is '.' then
      match digits CodePoint.digit? rest with
      | ([], _) => ([], s)
      | result => result
    else ([], s)
  | [] => ([], [])

def power? (s : Text) : Option (Int × Text) :=
  match s with
  | p :: rest =>
    if p.isOneOf ['e', 'E'] then
      let (negative, rest) := Text.Numeral.sign rest
      match digits CodePoint.digit? rest with
      | ([], _) => none
      | (ds, rest) => some (Text.Numeral.signed negative (Text.natOfDigits 0 ds), rest)
    else none
  | [] => none

/-- A decimal integer or float; an integer with further digits begins with no zero. -/
def decimal? (s : Text) : Option (Toml × Text) :=
  let (negative, body) := Text.Numeral.sign s
  let (whole, rest) :=
    match body with
    | p :: tail => if p.is '0' then ([0], tail) else digits CodePoint.digit? body
    | [] => ([], [])
  if whole.isEmpty then none
  else
    let (fraction, rest) := places rest
    match fraction, power? rest with
    | [], none => some (.int (Text.Numeral.signed negative (Text.natOfDigits 0 whole)), rest)
    | _, none => some (.float (Binary64.ofScanned negative (whole, fraction, 0)), rest)
    | _, some (e, rest) => some (.float (Binary64.ofScanned negative (whole, fraction, e)), rest)

def floatWord? (s : Text) : Option (Toml × Text) :=
  let words : List (Text × Binary64) := [("inf", .infinity false), ("nan", .nan), ("+inf", .infinity false),
    ("-inf", .infinity true), ("+nan", .nan), ("-nan", .nan)]
  words.findSome? fun w => (after? w.1 s).map fun rest => (.float w.2, rest)

def number? (s : Text) : Option (Toml × Text) :=
  let fromZero : Option (Toml × Text) := (after? "0" s).bind based?
  fromZero <|> decimal? s <|> floatWord? s

def timeAfterDate (s : Text) : Text :=
  match s with
  | p :: rest => if p.isOneOf ['T', 't', ' '] then ((clockTime? rest).map zone).getD s else s
  | [] => []

/-- Whether a date or a time of day begins here: the value, or none for a date that does not exist, and what
follows. -/
def moment? (s : Text) : Option (Option Toml × Text) :=
  let written := fun rest : Text => Toml.moment (s.take (s.length - rest.length))
  match date? s with
  | some (valid, rest) =>
    let rest := timeAfterDate rest
    some (if valid then some (written rest) else none, rest)
  | none => (clockTime? s).map fun rest => (some (written rest), rest)

end Signatory.Toml
