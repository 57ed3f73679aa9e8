import Signatory.Ledger.Engine

/-! Submitting a transaction whose fields may be any items. The checks and their order are those for all others;
a field that cannot be compared, looked up or told is an error of its own. -/

namespace Signatory.Engine
set_option autoImplicit false
open Cbor (Value)

variable {μ : Type} (E : Engine μ)

/-- The gas limit must be a number, whatever its kind, within the largest one. -/
def checkLooseGas (gas : Value) : Except Error Unit :=
  match gas.number? with
  | none => .error .wrongKind
  | some n =>
    if Number.int E.maxGasLimit < n then
      .error (.rejected (.item .invalidArgument
        (.concat ["gas limit ", gas.inWords, " exceeds maximum of ", .ofInt E.maxGasLimit])))
    else .ok ()

def checkLooseReference (l : Ledger) (reference : Value) : Except Error Unit := do
  if l.blocks.any (fun b => .bytes b.id == reference) then return
  let reference ← LooseTransaction.hex reference
  .error (.rejected (.item .invalidArgument (.concat ["reference block ", reference, " not found"])))

def length? : Value → Option Nat
  | .bytes b => some b.length
  | .text s => some s.length
  | .list items | .tuple items => some items.length
  | .map entries => some entries.length
  | _ => none

def bytesOfNumbers : List Value → Except Error Bytes
  | [] => .ok []
  | v :: vs => do
    let n ←
      match v with
      | .int i => pure i
      | .bool b => pure (if b then 1 else 0)
      | _ => .error .wrongKind
    if n < 0 ∨ 256 ≤ n then .error .unreadable
    return UInt8.ofNat n.toNat :: (← bytesOfNumbers vs)

/-- Whether an item is a signature under a key. One of another length is none; one of the right length must be
bytes, or numbers that stand for them. -/
def verifyItem (key : StoredKey) (message : Bytes) (signature : Value) : Except Error Bool := do
  match length? signature, decodePublicKey E.suite key.algorithm key.publicKey with
  | none, _ => .error .wrongKind
  | some n, decoded =>
    if n ≠ pairSize || !decoded matches .ok _ then return false
    let signature ←
      match signature with
      | .bytes b => pure b
      | .list items | .tuple items => bytesOfNumbers items
      | _ => .error .wrongKind
    return verifySignature E.suite key.publicKey key.algorithm key.hash message signature

def keyOf? (l : Ledger) (address : Value) (index : Int) : Option StoredKey :=
  (LooseTransaction.bytes? address).bind fun a => l.key? a index

def checkLooseSignature (l : Ledger) (message : Bytes) (address : Value) (index : Int) (signature : Value) :
    Except Error Unit := do
  match (keyOf? l address index).filter (!·.revoked) with
  | none =>
    let address ← LooseTransaction.hex address
    .error (.rejected (.item .invalidArgument
      (.concat ["signature from unknown or revoked key ", .ofInt index, " of account ", address])))
  | some key =>
    if !(← E.verifyItem key message signature) then
      let address ← LooseTransaction.hex address
      .error (.rejected (.item .invalidArgument
        (.concat ["invalid signature for account ", address, " key ", .ofInt index])))

/-- The account that an item names, with the address that the item is. -/
def findAccount (l : Ledger) (address : Value) : Except Error (Bytes × StoredAccount) := do
  match address with
  | .bytes a => return (a, ← reject (l.account a))
  | v =>
    LooseTransaction.checkKey v
    let address ← LooseTransaction.hex v
    .error (.rejected (.item .notFound (.concat ["account with address ", address, " does not exist"])))

def accountOf (l : Ledger) (address : Value) : Except Error StoredAccount := (findAccount l address).map Prod.snd

/-- The proposal key must be there and have the sequence number that the transaction bears. -/
def checkLooseProposal (l : Ledger) (t : LooseTransaction) : Except Error Bytes := do
  let (address, account) ← findAccount l t.proposer
  match account.key? t.keyIndex with
  | none => .error (.rejected (.noProposalKey address t.keyIndex))
  | some key =>
    if .int key.sequenceNumber == t.sequenceNumber then return address
    .error (.rejected (.item .invalidArgument
      (.concat ["invalid proposal key: address ", Bytes.hex address, ", index ", .ofInt t.keyIndex,
        ", sequence number ", t.sequenceNumber.inWords, " (expected ", .ofInt key.sequenceNumber, ")"])))

/-- The address of the proposer, once the transaction may run. -/
def validateLoose (l : Ledger) (t : LooseTransaction) (id : Bytes) : Except Error Bytes := do
  if l.transactions.contains id then .error (.rejected (.alreadyStored id))
  if !t.isPrepared then .error (.rejected .missingFields)
  E.checkLooseGas t.gasLimit
  checkLooseReference l t.referenceBlock
  match ← t.missingSignatures with
  | [] => pure ()
  | missing => .error (.rejected (.missingSignatures missing))
  let payload ← t.payloadMessage
  t.payloadSignatures.forM fun e => E.checkLooseSignature l payload e.1.1 e.1.2 e.2
  let envelope ← t.envelopeMessage
  t.envelopeSignatures.forM fun e => E.checkLooseSignature l envelope e.1.1 e.1.2 e.2
  checkLooseProposal l t

def submitLoose (s : State μ) (t : LooseTransaction) : Except Error Bytes × State μ :=
  match t.id E.suite with
  | .error e => (.error e, s)
  | .ok id =>
    match E.validateLoose s.ledger t id with
    | .error e => (.error e, s)
    | .ok proposer => E.run s proposer t id

end Signatory.Engine
