import Signatory.Text.Printable

/-! A text between quotes, for messages that show a raw value. -/

namespace Signatory.Text.Quoted
set_option autoImplicit false

/-- Apostrophes enclose a text, unless it holds an apostrophe and no double quote. -/
def mark (s : Text) : CodePoint :=
  if s.any (·.is '\'') && !s.any (·.is '"') then .ofChar '"' else .ofChar '\''

/-- A hidden code point in the shortest of the forms `\xhh`, `\uhhhh` and `\Uhhhhhhhh`. -/
def escape (p : CodePoint) : Text :=
  if p.val < 0x100 then "\\x" ++ ofHex 2 p.val
  else if p.val < 0x10000 then "\\u" ++ ofHex 4 p.val
  else "\\U" ++ ofHex 8 p.val

def point (quote p : CodePoint) : Text :=
  if p = quote || p.is '\\' then [.ofChar '\\', p]
  else if p.is '\t' then "\\t"
  else if p.is '\n' then "\\n"
  else if p.is '\r' then "\\r"
  else if p.isPrintable then [p]
  else escape p

def encode (s : Text) : Text :=
  let quote := mark s
  quote :: s.flatMap (point quote) ++ [quote]

end Signatory.Text.Quoted
