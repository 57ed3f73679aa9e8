import Signatory.Curve.Basic
import Signatory.Hash.Hmac

/-! ECDSA with the nonce derived from the key and the message hash. The nonce comes from a chain of
keyed hashes, so a key signs a message in one way only. -/

namespace Signatory
set_option autoImplicit false

inductive SignatureAlgorithm where
  | ecdsaP256
  | ecdsaSecp256k1
  deriving DecidableEq, Repr

namespace SignatureAlgorithm

def name : SignatureAlgorithm → Text
  | ecdsaP256 => "ECDSA_P256"
  | ecdsaSecp256k1 => "ECDSA_secp256k1"

def ofName? (s : Text) : Option SignatureAlgorithm :=
  [ecdsaP256, ecdsaSecp256k1].find? fun a => a.name = s

def curve : SignatureAlgorithm → Curve
  | ecdsaP256 => .p256
  | ecdsaSecp256k1 => .secp256k1

/-- The number of private keys plus one. -/
def order (A : SignatureAlgorithm) : Nat := A.curve.order

end SignatureAlgorithm

namespace Ecdsa

def scalarSize : Nat := 32

/-- The state of the nonce chain: the key of the keyed hash and its last value. -/
structure NonceChain where
  key : Bytes
  value : Bytes

def NonceChain.start (H : HashAlgorithm) (order scalar : Nat) (hashed : Bytes) : NonceChain :=
  let seed := Bytes.ofNat scalarSize scalar ++ Bytes.ofNat scalarSize (hashed.toNat % order)
  let value := List.replicate 32 (1 : UInt8)
  let key := H.hmac (List.replicate 32 0) (value ++ 0 :: seed)
  let value := H.hmac key value
  let key := H.hmac key (value ++ 1 :: seed)
  ⟨key, H.hmac key value⟩

def NonceChain.renew (H : HashAlgorithm) (c : NonceChain) : NonceChain :=
  let key := H.hmac c.key (c.value ++ [0])
  ⟨key, H.hmac key c.value⟩

/-- The signature made with one nonce, unless a part of it would be zero. -/
def signWith? (C : Curve) (scalar z nonce : Nat) : Option (Nat × Nat) := do
  let (x, _) ← C.coordinates? (C.multiply nonce C.base)
  let r := x % C.order
  let s := inverseMod C.order nonce * (z + r * scalar) % C.order
  if r = 0 ∨ s = 0 then none else some (r, s)

/-- Nonces of the chain are tried in turn. -/
def signFrom (C : Curve) (H : HashAlgorithm) (scalar z : Nat) :
    (attempts : Nat) → NonceChain → Nat × Nat
  | 0, _ => (1, 1)
  | n + 1, chain =>
    let chain := { chain with value := H.hmac chain.key chain.value }
    let nonce := chain.value.toNat
    if 1 ≤ nonce ∧ nonce < C.order then
      match signWith? C scalar z nonce with
      | some signature => signature
      | none => signFrom C H scalar z n (chain.renew H)
    else signFrom C H scalar z n (chain.renew H)

def sign (A : SignatureAlgorithm) (H : HashAlgorithm) (scalar : Nat) (message : Bytes) : Nat × Nat :=
  let hashed := H.digest message
  signFrom A.curve H scalar hashed.toNat 1000 (NonceChain.start H A.order scalar hashed)

def verify (A : SignatureAlgorithm) (H : HashAlgorithm) (key : Nat × Nat) (message : Bytes)
    (signature : Nat × Nat) : Bool :=
  let C := A.curve
  let (r, s) := signature
  if r = 0 ∨ s = 0 ∨ C.order ≤ r ∨ C.order ≤ s then false
  else
    let w := inverseMod C.order s
    let u := (H.digest message).toNat * w % C.order
    let v := r * w % C.order
    match C.coordinates? (C.add (C.multiply u C.base) (C.multiply v ⟨key.1, key.2, 1⟩)) with
    | none => false
    | some (x, _) => x % C.order == r

def publicPoint (A : SignatureAlgorithm) (scalar : Nat) : Nat × Nat :=
  (A.curve.coordinates? (A.curve.multiply scalar A.curve.base)).getD (0, 0)

end Ecdsa

end Signatory
