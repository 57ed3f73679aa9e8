import Signatory.Text.Basic

/-! Two numbers in DER, the form in which a signature scheme gives and takes signatures: a sequence of two integers.
Whatever has more than one form is read in its shortest one only. -/

namespace Signatory.Der
set_option autoImplicit false

/-- The bytes of a number, as few as leave the top bit clear, which is for the sign. -/
def magnitude (n : Nat) : Bytes := Bytes.ofNat ((n.log2 + 1) / 8 + 1) n

/-- A length below 128 is one byte; the bytes of any other follow their count. -/
def length (n : Nat) : Bytes :=
  if n < 128 then [UInt8.ofNat n]
  else
    let width := n.log2 / 8 + 1
    UInt8.ofNat (128 + width) :: Bytes.ofNat width n

def element (tag : UInt8) (content : Bytes) : Bytes := tag :: (length content.length ++ content)

def integer (n : Nat) : Bytes := element 0x02 (magnitude n)

def pair (p : Nat × Nat) : Bytes := element 0x30 (integer p.1 ++ integer p.2)

def length? : Bytes → Option (Nat × Bytes)
  | [] => none
  | b :: rest =>
    if b < 128 then some (b.toNat, rest)
    else
      let (written, rest) := rest.splitAt (b.toNat - 128)
      let n := Bytes.toNat written
      if length n = b :: written then some (n, rest) else none

/-- The content of an element, and what follows it. -/
def element? (tag : UInt8) : Bytes → Option (Bytes × Bytes)
  | [] => none
  | b :: rest => do
    let (size, rest) ← length? rest
    if b = tag ∧ size ≤ rest.length then some (rest.splitAt size) else none

/-- Numbers below zero are none. -/
def integer? (b : Bytes) : Option (Nat × Bytes) := do
  let (content, rest) ← element? 0x02 b
  let n := Bytes.toNat content
  if magnitude n = content then some (n, rest) else none

def pair? (b : Bytes) : Option (Nat × Nat) := do
  let (content, rest) ← element? 0x30 b
  let (first, content) ← integer? content
  let (second, content) ← integer? content
  if content.isEmpty ∧ rest.isEmpty then some (first, second) else none

end Signatory.Der
