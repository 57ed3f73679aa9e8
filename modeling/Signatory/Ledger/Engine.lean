import Signatory.Account.Address
import Signatory.Key.Raw
import Signatory.Ledger.Runtime

/-! The engine of a ledger that lives in the program. Each accepted transaction runs at once and is sealed in a
block of its own, with a single collection. A transaction whose script fails is sealed as well, without events
and with the accounts as they were; one that crashes the runtime is not. -/

namespace Signatory
set_option autoImplicit false
open Cbor (Value)

structure Engine (μ : Type) where
  suite : CryptoSuite
  runtime : Runtime μ
  maxGasLimit : Int
  /-- The readings of the clock, one after another; a clock may run out of the calendar. -/
  clock : Nat → Except Error Moment

namespace Engine

structure State (μ : Type) where
  ledger : Ledger
  memory : μ
  readings : Nat

structure RawKey where
  publicKey : Bytes
  algorithm : SignatureAlgorithm
  hash : HashAlgorithm

/-- Largest gas limit that is accepted unless another is set. -/
def defaultMaxGasLimit : Int := 9999

def serviceAddress : Bytes := [0xF8, 0xD6, 0xE0, 0x58, 0x6B, 0x0A, 0x20, 0xC7]

/-- The parent of the first block. -/
def zeroId : Bytes := List.replicate 32 0

variable {μ : Type} (E : Engine μ)

def digest (parts : List Value) : Bytes := E.suite.digest (Cbor.encode (.list parts))

def nextBlock (blocks : List StoredBlock) (collections : List Bytes) (timestamp : Moment) : StoredBlock :=
  let parent := (blocks.getLast?.map StoredBlock.id).getD zeroId
  let height : Int := blocks.length
  { id := E.digest [.bytes parent, .int height, .list (collections.map .bytes), .text timestamp.render]
    parent, height, timestamp, collections }

/-- Adds a block, stamped with the next reading of the clock. A reading that fails counts as one, too. -/
def commitBlock (s : State μ) (collections : List Bytes) : Except Error StoredBlock × State μ :=
  let readings := s.readings + 1
  match E.clock s.readings with
  | .error e => (.error e, { s with readings })
  | .ok timestamp =>
    let block := E.nextBlock s.ledger.blocks collections timestamp
    (.ok block, { s with ledger := { s.ledger with blocks := s.ledger.blocks ++ [block] }, readings })

def keysFrom (position : Nat) : List RawKey → List StoredKey
  | [] => []
  | k :: rest =>
    { index := position, publicKey := k.publicKey, algorithm := k.algorithm, hash := k.hash } ::
      keysFrom (position + 1) rest

def start (service : RawKey) (memory : μ) : Except Error (State μ) :=
  let account : StoredAccount := { address := serviceAddress, keys := keysFrom 0 [service] }
  let ledger := { Ledger.empty with accounts := Ledger.empty.accounts.insert serviceAddress account }
  let (block, s) := E.commitBlock ⟨ledger, memory, 0⟩ []
  block.map fun _ => s

/-- A new account that holds the given keys. Its address is its number. -/
def createAccount (s : State μ) (keys : List RawKey) : Bytes × State μ :=
  let number := s.ledger.accountCounter + 1
  let address := Bytes.ofNat Address.size number
  let account : StoredAccount := { address, keys := keysFrom 0 keys }
  (address, { s with ledger := { s.ledger with
    accounts := s.ledger.accounts.insert address account, accountCounter := number } })

/-- A signature counts under a key that is there, is not revoked, and verifies it. -/
def checkSignature (l : Ledger) (message : Bytes) (address : Bytes) (index : Int) (signature : Bytes) :
    Except Rejection Unit :=
  match (l.key? address index).filter (!·.revoked) with
  | none => .error (.unknownSigner address index)
  | some key =>
    if verifySignature E.suite key.publicKey key.algorithm key.hash message signature then .ok ()
    else .error (.badSignature address index)

def checkSignatures (l : Ledger) (message : Bytes) : List ((Bytes × Int) × Bytes) → Except Rejection Unit
  | [] => .ok ()
  | e :: rest => do
    E.checkSignature l message e.1.1 e.1.2 e.2
    checkSignatures l message rest

/-- The key that proposes a transaction must be there and have the sequence number that the transaction bears. -/
def checkProposal (l : Ledger) (address : Bytes) (index sequence : Int) : Except Rejection Unit := do
  let account ← l.account address
  match account.key? index with
  | none => .error (.noProposalKey address index)
  | some key =>
    if key.sequenceNumber = sequence then .ok ()
    else .error (.sequence address index sequence key.sequenceNumber)

def reject {α : Type} (r : Except Rejection α) : Except Error α := r.mapError .rejected

/-- Whether a transaction may run: it is new and complete, keeps within the gas limit, refers to a block of the
chain, and bears every signature and the sequence number that it needs. -/
def validate (l : Ledger) (t : Transaction) (id : Bytes) : Except Error Unit := do
  if l.transactions.contains id then .error (.rejected (.alreadyStored id))
  match t.network? with
  | none => .error (.rejected .missingFields)
  | some (reference, gas, sequence) =>
    if E.maxGasLimit < gas then .error (.rejected (.gasLimit gas E.maxGasLimit))
    if !l.blocks.any (fun b => b.id = reference) then .error (.rejected (.unknownReference reference))
    if !t.missingSignatures.isEmpty then .error (.rejected (.missingSignatures t.missingSignatures))
    let payload ← t.payloadMessage
    reject (E.checkSignatures l payload t.payloadSignatures.entries)
    let envelope ← t.envelopeMessage
    reject (E.checkSignatures l envelope t.envelopeSignatures.entries)
    reject (checkProposal l t.proposalKey.address t.proposalKey.keyIndex sequence)

/-- The keys with the sequence number of the first one of an index raised by one. -/
def bumpKeys (index : Int) : List StoredKey → List StoredKey
  | [] => []
  | k :: rest =>
    if k.index = index then { k with sequenceNumber := k.sequenceNumber + 1 } :: rest
    else k :: bumpKeys index rest

/-- The accounts with a sequence number raised; the run may have removed the account or the key. -/
def bump (accounts : Accounts) (address : Bytes) (index : Int) : Except Error Accounts :=
  match accounts.find? address with
  | none => .error .missingEntry
  | some account =>
    match account.key? index with
    | none => .error .noOperation
    | some _ => .ok (accounts.insert address { account with keys := bumpKeys index account.keys })

def collectionId (id : Bytes) : Bytes := E.digest [.text "collection", .list [.bytes id]]

/-- Seals a transaction that has run: raises the sequence number of its proposer, adds the block, and stores the
transaction with its events under their names. -/
def sealRun (s : State μ) (proposer : Bytes) (t : LooseTransaction) (id : Bytes) (emitted : List Json)
    (errorMessage : Text) : Except Error Bytes × State μ :=
  match bump s.ledger.accounts proposer t.keyIndex with
  | .error e => (.error e, s)
  | .ok accounts =>
    let s := { s with ledger := { s.ledger with accounts } }
    let collection := E.collectionId id
    match E.commitBlock s [collection] with
    | (.error e, s) => (.error e, s)
    | (.ok block, s) =>
      match StoredEvent.ofEmitted id 0 emitted with
      | .error e => (.error e, s)
      | .ok events =>
        (.ok id, { s with ledger := { s.ledger with
          collections := s.ledger.collections.insert collection [id]
          events := s.ledger.events.insert block.id events
          transactions := s.ledger.transactions.insert id t
          results := s.ledger.results.insert id ⟨id, block.id, errorMessage, events⟩ } })

def run (s : State μ) (proposer : Bytes) (t : LooseTransaction) (id : Bytes) : Except Error Bytes × State μ :=
  let (outcome, accounts, memory) := E.runtime.execute t s.ledger s.memory
  match outcome with
  | .done emitted =>
    E.sealRun { s with ledger := { s.ledger with accounts }, memory } proposer t id emitted []
  | .failed reason => E.sealRun { s with memory } proposer t id [] reason
  | .crashed reason => (.error (.rejected (.execution reason)), { s with memory })

/-- Validates, runs and seals a signed transaction, and gives its identifier. -/
def submit (s : State μ) (t : Transaction) : Except Error Bytes × State μ :=
  match t.id E.suite with
  | .error e => (.error e, s)
  | .ok id =>
    match E.validate s.ledger t id with
    | .error e => (.error e, s)
    | .ok () => E.run s t.proposalKey.address t.loosen id

/-- The value of a script. What it did to its copy of the ledger is dropped. -/
def evaluate (s : State μ) (script : Bytes) (arguments : List Json) : Except Error Json × State μ :=
  let (outcome, _, memory) := E.runtime.evaluate script arguments s.ledger s.memory
  let result :=
    match outcome with
    | .done value => .ok value
    | .failed reason => .error (.rejected (.script reason))
    | .crashed reason => .error (.rejected (.scriptCrash reason))
  (result, { s with memory })

end Engine

end Signatory
