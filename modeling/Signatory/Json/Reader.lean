import Signatory.Json.Basic
import Signatory.Text.Numeral

/-! Reading JSON text. Besides the standard grammar, `NaN`, `Infinity` and `-Infinity` are numbers; a
surrogate that stands alone is kept; of repeated keys the last value counts, at the place of the first.
An integer of more than 4300 digits is refused. Lists and objects may nest as deep as they like: the stack of the host
is taken as unlimited. -/

namespace Signatory.Json
set_option autoImplicit false

def isBlank (p : CodePoint) : Bool := p.isOneOf [' ', '\t', '\n', '\r']

def skipBlanks (s : Text) : Text := s.dropWhile isBlank

/-- What a string token spells: a code point as it stands, or one written as an escape of four
hexadecimal digits. -/
inductive Spelled where
  | plain (p : CodePoint)
  | escaped (p : CodePoint)

def shortEscape? (p : CodePoint) : Option CodePoint :=
  if p.isOneOf ['"', '\\', '/'] then some p
  else if p.is 'b' then some (.ofChar '\x08')
  else if p.is 'f' then some (.ofChar '\x0c')
  else if p.is 'n' then some (.ofChar '\n')
  else if p.is 'r' then some (.ofChar '\r')
  else if p.is 't' then some (.ofChar '\t')
  else none

def unit? (a b c d : CodePoint) : Option CodePoint := do
  let n := (((← a.hexDigit?) * 16 + (← b.hexDigit?)) * 16 + (← c.hexDigit?)) * 16 + (← d.hexDigit?)
  if h : n < 0x110000 then some ⟨n, h⟩ else none

/-- A string up to its closing quote, and what follows it. -/
def spell? : Text → Option (List Spelled × Text)
  | [] => none
  | p :: rest =>
    if p.is '"' then some ([], rest)
    else if p.is '\\' then
      match rest with
      | [] => none
      | e :: rest =>
        if e.is 'u' then
          match rest with
          | a :: b :: c :: d :: rest => do
            let u ← unit? a b c d
            let (ss, tail) ← spell? rest
            return (.escaped u :: ss, tail)
          | _ => none
        else do
          let q ← shortEscape? e
          let (ss, tail) ← spell? rest
          return (.plain q :: ss, tail)
    else if p.val < 32 then none
    else do
      let (ss, tail) ← spell? rest
      return (.plain p :: ss, tail)

def joinPair (high low : CodePoint) : CodePoint :=
  Fin.ofNat 0x110000 (0x10000 + (high.val - 0xD800) * 1024 + (low.val - 0xDC00))

/-- Escapes that write the halves of a pair, one right after the other, write one code point. -/
def joinPairs : List Spelled → Text
  | [] => []
  | .plain p :: rest => p :: joinPairs rest
  | [.escaped p] => [p]
  | .escaped p :: .escaped q :: rest =>
    if p.isHighSurrogate && q.isLowSurrogate then joinPair p q :: joinPairs rest
    else p :: joinPairs (.escaped q :: rest)
  | .escaped p :: .plain q :: rest => p :: q :: joinPairs rest

def string? (s : Text) : Option (Text × Text) := do
  let (ss, rest) ← spell? s
  return (joinPairs ss, rest)

/-- The digits of a whole number: a zero alone, or digits that begin with another one. -/
def whole? (s : Text) : Option (List Nat × Text) :=
  match Text.spanDigits s with
  | ([], _) => none
  | (0 :: _, _) => some ([0], s.drop 1)
  | result => some result

def fraction (s : Text) : List Nat × Text :=
  match s with
  | p :: rest =>
    if p.is '.' then
      match Text.spanDigits rest with
      | ([], _) => ([], s)
      | result => result
    else ([], s)
  | [] => ([], [])

def unsigned? (negative : Bool) (s : Text) : Option (Json × Text) := do
  let (whole, rest) ← whole? s
  let (places, rest) := fraction rest
  match places, Binary64.scanDecimal?.exponent? rest with
  | [], none =>
    if Text.Numeral.digitLimit < whole.length then none
    else some (int (Text.Numeral.signed negative (Text.natOfDigits 0 whole)), rest)
  | _, none => some (float (Binary64.ofScanned negative (whole, places, 0)), rest)
  | _, some (e, rest) => some (float (Binary64.ofScanned negative (whole, places, e)), rest)

def word? (s : Text) : Option (Json × Text) :=
  let words : List (Text × Json) := [("null", null), ("true", bool true), ("false", bool false),
    ("NaN", float .nan), ("Infinity", float (.infinity false)), ("-Infinity", float (.infinity true))]
  words.findSome? fun w => (Text.afterFront? w.1 s).map fun rest => (w.2, rest)

def scalar? (s : Text) : Option (Json × Text) :=
  match word? s with
  | some result => some result
  | none =>
    match s with
    | p :: rest => if p.is '-' then unsigned? true rest else unsigned? false s
    | [] => none

def key? : Text → Option (Text × Text)
  | [] => none
  | p :: rest => do
    if !p.is '"' then none
    let (k, rest) ← string? rest
    match skipBlanks rest with
    | c :: rest => if c.is ':' then some (k, skipBlanks rest) else none
    | [] => none

mutual

/-- A value at the front of a text, and what follows it. -/
def value? : (fuel : Nat) → Text → Option (Json × Text)
  | 0, _ => none
  | _ + 1, [] => none
  | n + 1, p :: rest =>
    if p.is '"' then (string? rest).map fun r => (text r.1, r.2)
    else if p.is '[' then
      match skipBlanks rest with
      | [] => none
      | q :: tail =>
        if q.is ']' then some (list [], tail)
        else (items? n (q :: tail)).map fun r => (list r.1, r.2)
    else if p.is '{' then
      match skipBlanks rest with
      | [] => none
      | q :: tail =>
        if q.is '}' then some (object [], tail)
        else (fields? n (q :: tail)).map fun r => (object (Entries.collect r.1), r.2)
    else scalar? (p :: rest)

/-- The items of a list from one of them on, up to the closing bracket. -/
def items? : (fuel : Nat) → Text → Option (List Json × Text)
  | 0, _ => none
  | n + 1, s => do
    let (v, rest) ← value? n s
    match skipBlanks rest with
    | [] => none
    | p :: rest =>
      if p.is ']' then some ([v], rest)
      else if p.is ',' then
        let (vs, rest) ← items? n (skipBlanks rest)
        some (v :: vs, rest)
      else none

/-- The fields of an object from one of them on, up to the closing brace. -/
def fields? : (fuel : Nat) → Text → Option (List (Text × Json) × Text)
  | 0, _ => none
  | n + 1, s => do
    let (k, rest) ← key? s
    let (v, rest) ← value? n rest
    match skipBlanks rest with
    | [] => none
    | p :: rest =>
      if p.is '}' then some ([(k, v)], rest)
      else if p.is ',' then
        let (fs, rest) ← fields? n (skipBlanks rest)
        some ((k, v) :: fs, rest)
      else none

end

/-- A whole text that is one value with blanks around it. -/
def parse? (s : Text) : Option Json := do
  let (v, rest) ← value? (2 * s.length + 2) (skipBlanks s)
  if (skipBlanks rest).isEmpty then some v else none

end Signatory.Json
