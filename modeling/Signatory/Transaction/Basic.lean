import Signatory.Argument
import Signatory.Cbor.Encoder
import Signatory.Key.Suite

/-! Transactions and what is signed of them. The payload is the body of the transaction; the payer signs
it together with the payload signatures. Either message is canonical CBOR behind a tag that keeps it apart
from all other signed data. -/

namespace Signatory
set_option autoImplicit false

inductive ScriptSource where
  | bytes (b : Bytes)
  | text (s : Text)

def ScriptSource.toBytes : ScriptSource → Except Error Bytes
  | bytes b => .ok b
  | text s => (Text.Utf8.encode? s).elim (.error .notUnicode) .ok

/-- The key whose sequence number orders the transaction among those of its proposer. -/
structure ProposalKey where
  address : Bytes
  keyIndex : Int
  sequenceNumber : Option Int
  deriving DecidableEq

/-- Signatures by address and key index, in the order in which they were made. -/
abbrev SignatureMap := OrderedMap (Bytes × Int) Bytes

structure Transaction where
  script : Bytes
  arguments : List Json
  payer : Bytes
  authorizers : List Bytes
  proposalKey : ProposalKey
  gasLimit : Option Int
  referenceBlock : Option Bytes
  payloadSignatures : SignatureMap
  envelopeSignatures : SignatureMap

namespace Transaction

open Cbor (Value)

/-- The fields that come from the state of the network, once all are set: reference block, gas limit and
sequence number. -/
def network? (t : Transaction) : Option (Bytes × Int × Int) := do
  return (← t.referenceBlock, ← t.gasLimit, ← t.proposalKey.sequenceNumber)

def isPrepared (t : Transaction) : Bool := t.network?.isSome

/-- The tag in front of signed messages, 32 bytes. -/
def domainTag : Bytes := Bytes.padRight 32 (Text.Utf8.encode "LEDGERKIT-V0.0-transaction")

def payloadItem (t : Transaction) : Except Error Value :=
  match t.network? with
  | none => .error .notPrepared
  | some (reference, gas, sequence) => do
    let arguments ← t.arguments.mapM Argument.encode
    return .list [.bytes t.script, .list (arguments.map .bytes), .bytes reference, .int gas,
      .bytes t.proposalKey.address, .int t.proposalKey.keyIndex, .int sequence, .bytes t.payer,
      .list (t.authorizers.map .bytes)]

def signatureItem (m : SignatureMap) : Value :=
  .list (m.entries.map fun e => .list [.bytes e.1.1, .int e.1.2, .bytes e.2])

/-- What the proposer and the authorizers sign. -/
def payloadMessage (t : Transaction) : Except Error Bytes := do
  return domainTag ++ Cbor.encode (← t.payloadItem)

/-- What the payer signs. -/
def envelopeMessage (t : Transaction) : Except Error Bytes := do
  return domainTag ++ Cbor.encode (.list [← t.payloadItem, signatureItem t.payloadSignatures])

/-- The bytes that the identifier digests. -/
def idPreimage (t : Transaction) : Except Error Bytes := do
  return Cbor.encode (.list [← t.payloadItem, signatureItem t.payloadSignatures,
    signatureItem t.envelopeSignatures])

def id (suite : CryptoSuite) (t : Transaction) : Except Error Bytes := t.idPreimage.map suite.digest

def signers (m : SignatureMap) : List Bytes := m.keys.map Prod.fst

/-- Every signature that is missing, by address: the proposal key's, one of every authorizer other than the
proposer, and one of the payer. -/
def missingSignatures (t : Transaction) : List Text :=
  let key := t.proposalKey
  let proposer : List Text :=
    if t.payloadSignatures.contains (key.address, key.keyIndex) then []
    else [.concat ["proposer 0x", Bytes.hex key.address, " key ", .ofInt key.keyIndex, " (payload)"]]
  let unsigned := t.authorizers.eraseDups.filter fun a =>
    !(signers t.payloadSignatures).contains a && a != key.address
  let payer : List Text :=
    if (signers t.envelopeSignatures).contains t.payer then []
    else [.concat ["payer 0x", Bytes.hex t.payer, " (envelope)"]]
  proposer ++ unsigned.map (fun a => .concat ["authorizer 0x", Bytes.hex a, " (payload)"]) ++ payer

/-- Equality up to the order of signatures and of keys in arguments. -/
def alike (t u : Transaction) : Bool :=
  t.script == u.script && Json.alikeAll t.arguments u.arguments && t.payer == u.payer &&
    t.authorizers == u.authorizers && t.proposalKey == u.proposalKey && t.gasLimit == u.gasLimit &&
    t.referenceBlock == u.referenceBlock && t.payloadSignatures.sameEntries u.payloadSignatures &&
    t.envelopeSignatures.sameEntries u.envelopeSignatures

end Transaction

end Signatory
