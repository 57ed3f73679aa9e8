import Signatory.Argument

/-! JSON texts as a host with a limited stack reads them: one whose brackets nest too deep is not read at all. The codec
itself takes the stack as unlimited. -/

namespace Signatory.Scenario
set_option autoImplicit false

structure BracketScan where
  depth : Nat := 0
  deepest : Nat := 0
  quoted : Bool := false
  escaped : Bool := false

/-- The scan after one more code point; inside quotes only their end matters. -/
def BracketScan.step (s : BracketScan) (p : CodePoint) : BracketScan :=
  if s.escaped then { s with escaped := false }
  else if s.quoted then { s with quoted := !p.is '"', escaped := p.is '\\' }
  else if p.is '"' then { s with quoted := true }
  else if p.isOneOf ['[', '{'] then { s with depth := s.depth + 1, deepest := max s.deepest (s.depth + 1) }
  else if p.isOneOf [']', '}'] then { s with depth := s.depth - 1 }
  else s

def nesting (s : Text) : Nat := (s.foldl BracketScan.step {}).deepest

def maxNesting : Nat := 990

def checkNesting (s : Text) : Except Error Unit := if maxNesting < nesting s then .error .tooDeep else .ok ()

def readJson (s : Text) : Except Error Json := do
  checkNesting s
  (Json.parse? s).elim (.error .notJson) .ok

def readArgument (data : Bytes) : Except Error Json := do
  if let some s := Text.Utf8.decode? data then checkNesting s
  Argument.decode data

def readArguments (s : Text) : Except Error (List Json) := do
  checkNesting s
  Argument.parseList s

end Signatory.Scenario
