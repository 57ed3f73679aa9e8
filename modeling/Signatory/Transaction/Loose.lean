import Signatory.Cbor.Display
import Signatory.Transaction.Basic

/-! Transactions whose fields, arguments and key indices apart, may be any items. So they come from a node, and so
they are kept, signed and passed on; what a field must be able to do is found out where it is needed. -/

namespace Signatory
set_option autoImplicit false
open Cbor (Value)

/-- Signatures by address and key index, in the order in which they came. -/
abbrev LooseSignatures := List ((Value × Int) × Value)

structure LooseTransaction where
  script : Value
  arguments : List Json
  payer : Value
  authorizers : List Value
  proposer : Value
  keyIndex : Int
  sequenceNumber : Value
  gasLimit : Value
  referenceBlock : Value
  payloadSignatures : LooseSignatures
  envelopeSignatures : LooseSignatures

namespace Transaction

def ofOptional {α : Type} (item : α → Value) (x : Option α) : Value := (x.map item).getD .null

def loosenSignatures (m : SignatureMap) : LooseSignatures :=
  m.entries.map fun e => ((.bytes e.1.1, e.1.2), .bytes e.2)

def loosen (t : Transaction) : LooseTransaction where
  script := .bytes t.script
  arguments := t.arguments
  payer := .bytes t.payer
  authorizers := t.authorizers.map .bytes
  proposer := .bytes t.proposalKey.address
  keyIndex := t.proposalKey.keyIndex
  sequenceNumber := ofOptional .int t.proposalKey.sequenceNumber
  gasLimit := ofOptional .int t.gasLimit
  referenceBlock := ofOptional .bytes t.referenceBlock
  payloadSignatures := loosenSignatures t.payloadSignatures
  envelopeSignatures := loosenSignatures t.envelopeSignatures

end Transaction

namespace LooseTransaction

def bytes? : Value → Option Bytes
  | .bytes b => some b
  | _ => none

def int? : Value → Option Int
  | .int i => some i
  | _ => none

def optional? {α : Type} (item? : Value → Option α) : Value → Option (Option α)
  | .null => some none
  | v => (item? v).map some

def signatures? (signatures : LooseSignatures) : Option SignatureMap := do
  let entries ← signatures.mapM fun e => do return ((← bytes? e.1.1, e.1.2), ← bytes? e.2)
  return .ofList entries

/-- The transaction, when every field is of the kind that senders write. -/
def regular? (t : LooseTransaction) : Option Transaction := do
  return {
    script := ← bytes? t.script
    arguments := t.arguments
    payer := ← bytes? t.payer
    authorizers := ← t.authorizers.mapM bytes?
    proposalKey := ⟨← bytes? t.proposer, t.keyIndex, ← optional? int? t.sequenceNumber⟩
    gasLimit := ← optional? int? t.gasLimit
    referenceBlock := ← optional? bytes? t.referenceBlock
    payloadSignatures := ← signatures? t.payloadSignatures
    envelopeSignatures := ← signatures? t.envelopeSignatures }

/-- Whether the fields that the network fills are present. -/
def isPrepared (t : LooseTransaction) : Bool :=
  [t.referenceBlock, t.gasLimit, t.sequenceNumber].all fun v => !v matches .null

def payloadItem (t : LooseTransaction) : Except Error Value := do
  if !t.isPrepared then .error .notPrepared
  let arguments ← t.arguments.mapM Argument.encode
  return .list [t.script, .list (arguments.map .bytes), t.referenceBlock, t.gasLimit, t.proposer,
    .int t.keyIndex, t.sequenceNumber, t.payer, .list t.authorizers]

def signatureItem (signatures : LooseSignatures) : Value :=
  .list (signatures.map fun e => .list [e.1.1, .int e.1.2, e.2])

/-- The form of an item; a text with a surrogate has none. -/
def written (v : Value) : Except Error Bytes := (Cbor.encode? v).elim (.error .notUnicode) .ok

def payloadMessage (t : LooseTransaction) : Except Error Bytes := do
  return Transaction.domainTag ++ (← written (← t.payloadItem))

def envelopeMessage (t : LooseTransaction) : Except Error Bytes := do
  return Transaction.domainTag ++ (← written (.list [← t.payloadItem, signatureItem t.payloadSignatures]))

def id (suite : CryptoSuite) (t : LooseTransaction) : Except Error Bytes := do
  return suite.digest (← written (.list [← t.payloadItem, signatureItem t.payloadSignatures,
    signatureItem t.envelopeSignatures]))

/-- The hexadecimal text of an item that should be bytes. -/
def hex (v : Value) : Except Error Text := v.hex?.elim (.error .noOperation) .ok

/-- An item that is looked up must be able to be part of a key. -/
def checkKey (v : Value) : Except Error Unit := if v.isKey then .ok () else .error .wrongKind

def hasSigned (address : Value) (signatures : LooseSignatures) : Bool := signatures.any fun e => e.1.1 == address

def missingProposer (t : LooseTransaction) : Except Error (List Text) := do
  checkKey t.proposer
  if (Entries.find? (t.proposer, t.keyIndex) t.payloadSignatures).isSome then return []
  return [.concat ["proposer 0x", ← hex t.proposer, " key ", .ofInt t.keyIndex, " (payload)"]]

def missingAuthorizers (t : LooseTransaction) : Except Error (List Text) := do
  t.authorizers.forM checkKey
  let unsigned := t.authorizers.eraseDups.filter fun a => !hasSigned a t.payloadSignatures && !a == t.proposer
  unsigned.mapM fun a => do return .concat ["authorizer 0x", ← hex a, " (payload)"]

def missingPayer (t : LooseTransaction) : Except Error (List Text) := do
  if hasSigned t.payer t.envelopeSignatures then return []
  return [.concat ["payer 0x", ← hex t.payer, " (envelope)"]]

/-- Every signature that is missing, by address. Only an address that has a hexadecimal text can be told. -/
def missingSignatures (t : LooseTransaction) : Except Error (List Text) := do
  return (← t.missingProposer) ++ (← t.missingAuthorizers) ++ (← t.missingPayer)

/-- Equality up to the order of signatures. -/
def alikeSignatures (s u : LooseSignatures) : Bool :=
  s.length == u.length && s.all fun e => (Entries.find? e.1 u).any (· == e.2)

/-- Equality up to the order of signatures and of keys in arguments, and up to the kinds of numbers. -/
def alike (t u : LooseTransaction) : Bool :=
  t.script == u.script && Json.alikeAll t.arguments u.arguments && t.payer == u.payer &&
    t.authorizers == u.authorizers && t.proposer == u.proposer && t.keyIndex == u.keyIndex &&
    t.sequenceNumber == u.sequenceNumber && t.gasLimit == u.gasLimit && t.referenceBlock == u.referenceBlock &&
    alikeSignatures t.payloadSignatures u.payloadSignatures &&
    alikeSignatures t.envelopeSignatures u.envelopeSignatures

end LooseTransaction

end Signatory
