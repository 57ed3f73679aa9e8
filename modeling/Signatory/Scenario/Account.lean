import Signatory.Account.Basic
import Signatory.Text.Utf8

/-! Accounts described by data: where the private key comes from, which algorithms are declared, and, for a
signer outside the program, what it answers. -/

namespace Signatory.Scenario
set_option autoImplicit false

inductive KeySource where
  | seed (text : Text)
  | numeral (text : Text)

/-- A signer outside the program. It signs everything alike, or fails with a reason. -/
structure OutsideSigner where
  /-- The public key it shows; that of the private key when it names none. -/
  publicKey : Option Bytes
  hash : Option Text
  answer : Except Text Bytes

structure KeyPlan where
  index : Int
  source : KeySource
  algorithm : Option Text
  hash : Option Text
  signerAlgorithm : Option Text
  signerHash : Option Text
  outside : Option OutsideSigner

namespace KeyPlan

/-- The algorithm of the private key: the signer's own, else the declared one. -/
def privateKey (p : KeyPlan) : Except Error PrivateKey :=
  let algorithm := (p.signerAlgorithm <|> p.algorithm).getD SignatureAlgorithm.ecdsaP256.name
  match p.source with
  | .seed s => (Text.Utf8.encode? s).elim (.error .notUnicode) (PrivateKey.ofSeedNamed algorithm)
  | .numeral s => PrivateKey.ofHexNamed (some algorithm) s

def inMemorySigner (suite : CryptoSuite) (p : KeyPlan) : Except Error Signer := do
  let key ← p.privateKey
  match HashAlgorithm.ofName? ((p.signerHash <|> p.hash).getD HashAlgorithm.sha3_256.name) with
  | none => .error .unknownAlgorithm
  | some H => return Signer.ofPrivateKey suite key H

def signer (suite : CryptoSuite) (p : KeyPlan) : Except Error Signer :=
  match p.outside with
  | none => p.inMemorySigner suite
  | some outside => do
    let publicKey ← outside.publicKey.elim (p.privateKey.map (·.publicKey suite)) .ok
    return { publicKey, hash := outside.hash, sign := fun _ => outside.answer }

def accountKey (suite : CryptoSuite) (p : KeyPlan) : Except Error AccountKey := do
  AccountKey.createNamed suite p.index (← p.signer suite) p.algorithm p.hash

end KeyPlan

structure AccountPlan where
  name : Text
  address : Bytes
  keys : List KeyPlan

/-- The account of a plan; its keys are made before its address is looked at. -/
def AccountPlan.account (suite : CryptoSuite) (p : AccountPlan) : Except Error Account := do
  Account.create p.name p.address (← p.keys.mapM (KeyPlan.accountKey suite))

end Signatory.Scenario
