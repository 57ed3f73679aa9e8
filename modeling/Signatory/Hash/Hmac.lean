import Signatory.Hash.Sha256
import Signatory.Hash.Sha3

/-! The two hash algorithms by name, and the keyed hash made of each. -/

namespace Signatory
set_option autoImplicit false

inductive HashAlgorithm where
  | sha2_256
  | sha3_256
  deriving DecidableEq, Repr

namespace HashAlgorithm

def name : HashAlgorithm → Text
  | sha2_256 => "SHA2_256"
  | sha3_256 => "SHA3_256"

def ofName? (s : Text) : Option HashAlgorithm := [sha2_256, sha3_256].find? fun a => a.name = s

def digest : HashAlgorithm → Bytes → Bytes
  | sha2_256 => Sha256.digest
  | sha3_256 => Sha3.digest

def blockSize : HashAlgorithm → Nat
  | sha2_256 => 64
  | sha3_256 => Sha3.rate

/-- The keyed hash; a key longer than a block is hashed first. -/
def hmac (H : HashAlgorithm) (key message : Bytes) : Bytes :=
  let short := if H.blockSize < key.length then H.digest key else key
  let padded := Bytes.padRight H.blockSize short
  let inner := H.digest (padded.map (· ^^^ 0x36) ++ message)
  H.digest (padded.map (· ^^^ 0x5C) ++ inner)

end HashAlgorithm

end Signatory
