import Signatory.Text.Basic

/-! SHA3-256 of a list of bytes: the sponge over the permutation of 25 lanes of 64 bits, with blocks of
136 bytes. Lane `x + 5 * y` stands in column `x` and row `y`. -/

namespace Signatory.Sha3
set_option autoImplicit false

abbrev Lanes := Array UInt64

def roundConstants : List UInt64 := [
  0x0000000000000001, 0x0000000000008082, 0x800000000000808a, 0x8000000080008000,
  0x000000000000808b, 0x0000000080000001, 0x8000000080008081, 0x8000000000008009,
  0x000000000000008a, 0x0000000000000088, 0x0000000080008009, 0x000000008000000a,
  0x000000008000808b, 0x800000000000008b, 0x8000000000008089, 0x8000000000008003,
  0x8000000000008002, 0x8000000000000080, 0x000000000000800a, 0x800000008000000a,
  0x8000000080008081, 0x8000000000008080, 0x0000000080000001, 0x8000000080008008]

def rotations : List UInt64 := [
  0, 1, 62, 28, 27, 36, 44, 6, 55, 20, 3, 10, 43, 25, 39, 41, 45, 15, 21, 8, 18, 2, 61, 56, 14]

def lane (s : Lanes) (x y : Nat) : UInt64 := s.getD (x % 5 + 5 * (y % 5)) 0

def rotateLeft (v n : UInt64) : UInt64 := if n = 0 then v else (v <<< n) ||| (v >>> (64 - n))

def build (f : Nat → Nat → UInt64) : Lanes :=
  ((List.range 25).map fun i => f (i % 5) (i / 5)).toArray

def parity (s : Lanes) (x : Nat) : UInt64 :=
  lane s x 0 ^^^ lane s x 1 ^^^ lane s x 2 ^^^ lane s x 3 ^^^ lane s x 4

/-- Every lane takes in the parities of two columns near it. -/
def theta (s : Lanes) : Lanes :=
  let parities := ((List.range 5).map (parity s)).toArray
  let mix := fun x : Nat => parities.getD ((x + 4) % 5) 0 ^^^ rotateLeft (parities.getD ((x + 1) % 5) 0) 1
  let mixes := ((List.range 5).map mix).toArray
  build fun x y => lane s x y ^^^ mixes.getD x 0

/-- Every lane is rotated by its own amount. -/
def rho (s : Lanes) : Lanes := (s.toList.zipWith rotateLeft rotations).toArray

/-- The lanes change places. -/
def pi (s : Lanes) : Lanes := build fun x y => lane s (x + 3 * y) x

/-- Every lane takes in its two neighbours in the row. -/
def chi (s : Lanes) : Lanes :=
  build fun x y => lane s x y ^^^ (~~~(lane s (x + 1) y) &&& lane s (x + 2) y)

/-- The first lane takes in the constant of the round. -/
def iota (constant : UInt64) (s : Lanes) : Lanes := s.modify 0 (· ^^^ constant)

def permute (s : Lanes) : Lanes :=
  roundConstants.foldl (fun s constant => iota constant (chi (pi (rho (theta s))))) s

/-- Little-endian lanes of eight bytes. -/
def lanes : Bytes → List UInt64
  | a :: b :: c :: d :: e :: f :: g :: h :: rest =>
    ([h, g, f, e, d, c, b, a].foldl (fun w byte => (w <<< 8) ||| byte.toUInt64) 0) :: lanes rest
  | _ => []

def rate : Nat := 136

/-- Blocks of seventeen lanes go in one after another. -/
def absorb (s : Lanes) (input : List UInt64) : Lanes :=
  if _h : input.length < 17 then s
  else
    let block := input.take 17 ++ List.replicate 8 0
    absorb (permute (s.toList.zipWith (· ^^^ ·) block).toArray) (input.drop 17)
termination_by input.length
decreasing_by simp only [List.length_drop]; omega

/-- The bits 01, then a one bit, zeros and a one bit up to a whole number of blocks. -/
def pad (message : Bytes) : Bytes :=
  let free := rate - message.length % rate
  if free = 1 then message ++ [0x86]
  else message ++ 0x06 :: List.replicate (free - 2) 0 ++ [0x80]

def digest (message : Bytes) : Bytes :=
  let s := absorb (List.replicate 25 0).toArray (lanes (pad message))
  (s.toList.take 4).flatMap fun w => (Bytes.ofNat 8 w.toNat).reverse

end Signatory.Sha3
