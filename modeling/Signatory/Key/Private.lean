import Signatory.Key.Raw
import Signatory.Text.Numeral

/-! Private keys: a scalar between 1 and the order of the curve, derived from a seed or read from a
hexadecimal numeral. -/

namespace Signatory
set_option autoImplicit false

structure PrivateKey where
  algorithm : SignatureAlgorithm
  scalar : Nat

namespace PrivateKey

/-- The key of a seed; a seed has one key for each algorithm. -/
def ofSeed (A : SignatureAlgorithm) (seed : Bytes) : PrivateKey :=
  ⟨A, (Sha256.digest seed).toNat % (A.order - 1) + 1⟩

def ofSeedNamed (algorithm : Text) (seed : Bytes) : Except Error PrivateKey :=
  match SignatureAlgorithm.ofName? algorithm with
  | some A => .ok (ofSeed A seed)
  | none => .error (.publicKey (.unsupported algorithm))

/-- How a key range is labelled when no algorithm was named. -/
def defaultLabel : Text := "SignatureAlgorithm.ECDSA_P256"

/-- The key written as a hexadecimal numeral, after one `0x` if there is one. The numeral is looked at
before the algorithm. -/
def ofHexNamed (algorithm : Option Text) (given : Text) : Except Error PrivateKey := do
  let numeral := (Text.afterFront? "0x" given).getD given
  match Text.Numeral.hexadecimal? numeral with
  | none => .error .privateKeyText
  | some scalar =>
    match SignatureAlgorithm.ofName? (algorithm.getD SignatureAlgorithm.ecdsaP256.name) with
    | none => .error .unknownAlgorithm
    | some A =>
      if 1 ≤ scalar ∧ scalar < A.order then .ok ⟨A, scalar.toNat⟩
      else .error (.privateKeyRange (algorithm.getD defaultLabel))

def publicKey (suite : CryptoSuite) (k : PrivateKey) : Bytes :=
  (encodePair? (suite.publicPoint k.algorithm k.scalar)).getD []

end PrivateKey

end Signatory
