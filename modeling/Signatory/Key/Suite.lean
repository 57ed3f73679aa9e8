import Signatory.Curve.Ecdsa
import Signatory.Key.Der

/-! The cryptography that the rest of the library is built on: a digest for identifiers and a signature
scheme over curve points, with its signatures in DER. Everything above takes it as a parameter. -/

namespace Signatory
set_option autoImplicit false

structure CryptoSuite where
  /-- The digest that names transactions, collections and blocks. -/
  digest : Bytes → Bytes
  isPoint : SignatureAlgorithm → Nat × Nat → Bool
  publicPoint : SignatureAlgorithm → Nat → Nat × Nat
  sign : SignatureAlgorithm → HashAlgorithm → (scalar : Nat) → (message : Bytes) → Bytes
  verify : SignatureAlgorithm → HashAlgorithm → (key : Nat × Nat) → (message : Bytes) →
    (signature : Bytes) → Bool

/-- No two of some inputs have one digest. -/
def CryptoSuite.CollisionFree (suite : CryptoSuite) (inputs : Bytes → Prop) : Prop :=
  ∀ a b, inputs a → inputs b → suite.digest a = suite.digest b → a = b

def CryptoSuite.standard : CryptoSuite where
  digest := Sha3.digest
  isPoint A p := A.curve.isPoint p.1 p.2
  publicPoint := Ecdsa.publicPoint
  sign A H scalar message := Der.pair (Ecdsa.sign A H scalar message)
  verify A H key message signature :=
    match Der.pair? signature with
    | some s => Ecdsa.verify A H key message s
    | none => false

end Signatory
