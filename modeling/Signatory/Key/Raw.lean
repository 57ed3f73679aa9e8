import Signatory.Error
import Signatory.Key.Suite

/-! Keys and signatures as bytes: two numbers of 32 bytes each, one after the other. -/

namespace Signatory
set_option autoImplicit false

def pairSize : Nat := 2 * Ecdsa.scalarSize

/-- Two numbers in 32 bytes each, if they fit. -/
def encodePair? (p : Nat × Nat) : Option Bytes :=
  let bound := Nat.pow 256 Ecdsa.scalarSize
  if p.1 < bound ∧ p.2 < bound then
    some (Bytes.ofNat Ecdsa.scalarSize p.1 ++ Bytes.ofNat Ecdsa.scalarSize p.2)
  else none

def decodePair? (raw : Bytes) : Option (Nat × Nat) :=
  if raw.length = pairSize then
    some (Bytes.toNat (raw.take Ecdsa.scalarSize), Bytes.toNat (raw.drop Ecdsa.scalarSize))
  else none

def decodePublicKey (suite : CryptoSuite) (A : SignatureAlgorithm) (raw : Bytes) :
    Except PublicKeyFault (Nat × Nat) :=
  match decodePair? raw with
  | none => .error (.size raw.length)
  | some p => if suite.isPoint A p then .ok p else .error .offCurve

/-- The point that bytes encode under an algorithm given by name. The size is checked first. -/
def decodePublicKeyNamed (suite : CryptoSuite) (algorithm : Text) (raw : Bytes) :
    Except PublicKeyFault (Nat × Nat) :=
  match decodePair? raw, SignatureAlgorithm.ofName? algorithm with
  | none, _ => .error (.size raw.length)
  | some _, none => .error (.unsupported algorithm)
  | some _, some A => decodePublicKey suite A raw

def verifySignature (suite : CryptoSuite) (publicKey : Bytes) (A : SignatureAlgorithm)
    (H : HashAlgorithm) (message signature : Bytes) : Bool :=
  match decodePair? signature, decodePublicKey suite A publicKey with
  | some s, .ok key => suite.verify A H key message (Der.pair s)
  | _, _ => false

/-- Verification under algorithms given by name. The hash matters only once signature and key are
readable. -/
def verifySignatureNamed (suite : CryptoSuite) (publicKey : Bytes) (algorithm hash : Text)
    (message signature : Bytes) : Except Error Bool :=
  match SignatureAlgorithm.ofName? algorithm with
  | none => .ok false
  | some A =>
    match decodePair? signature, decodePublicKey suite A publicKey with
    | some _, .ok _ =>
      match HashAlgorithm.ofName? hash with
      | none => .error (.unsupportedHash hash)
      | some H => .ok (verifySignature suite publicKey A H message signature)
    | _, _ => .ok false

end Signatory
