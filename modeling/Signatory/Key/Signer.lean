import Signatory.Key.Private

/-! Signers. A signer shows its public key and may show its hash; asked to sign, it gives bytes or fails
with a reason. One that keeps its key in memory hashes and signs by itself. -/

namespace Signatory
set_option autoImplicit false

structure Signer where
  publicKey : Bytes
  hash : Option Text
  sign : Bytes → Except Text Bytes

namespace Signer

def ofPrivateKey (suite : CryptoSuite) (k : PrivateKey) (H : HashAlgorithm) : Signer where
  publicKey := k.publicKey suite
  hash := some H.name
  sign message :=
    match Der.pair? (suite.sign k.algorithm H k.scalar message) with
    | none => .error "signature is malformed"
    | some s =>
      match encodePair? s with
      | some signature => .ok signature
      | none => .error "signature does not fit"

/-- How an in-memory signer shows itself: the front of its public key. -/
def display (s : Signer) : Text :=
  .concat ["InMemorySigner(public_key=", (Bytes.hex s.publicKey).take 16, "...)"]

end Signer

structure AccountKey where
  index : Int
  signer : Signer
  algorithm : SignatureAlgorithm
  hash : HashAlgorithm

namespace AccountKey

/-- The hash a signer names must be the declared one. -/
def checkHash (index : Int) (signer : Signer) (declared : HashAlgorithm) : Except Error Unit :=
  match signer.hash with
  | none => .ok ()
  | some name =>
    match HashAlgorithm.ofName? name with
    | none => .error .unknownAlgorithm
    | some H => if H = declared then .ok () else .error (.signerHash H index declared)

def create (suite : CryptoSuite) (index : Int) (signer : Signer) (A : SignatureAlgorithm)
    (H : HashAlgorithm) : Except Error AccountKey := do
  if index < 0 then .error (.keyIndex index)
  checkHash index signer H
  match decodePublicKey suite A signer.publicKey with
  | .error fault => .error (.signerPublicKey A index fault)
  | .ok _ => .ok ⟨index, signer, A, H⟩

/-- A key whose algorithms are given by name; P-256 and SHA3-256 unless they are. -/
def createNamed (suite : CryptoSuite) (index : Int) (signer : Signer) (algorithm hash : Option Text) :
    Except Error AccountKey := do
  if index < 0 then .error (.keyIndex index)
  match SignatureAlgorithm.ofName? (algorithm.getD SignatureAlgorithm.ecdsaP256.name),
      HashAlgorithm.ofName? (hash.getD HashAlgorithm.sha3_256.name) with
  | some A, some H => create suite index signer A H
  | _, _ => .error .unknownAlgorithm

end AccountKey

end Signatory
