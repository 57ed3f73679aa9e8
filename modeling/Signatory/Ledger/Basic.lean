import Signatory.Checked
import Signatory.Record
import Signatory.Transaction.Loose

/-! A ledger as a value: accounts, the chain of blocks, and, for every sealed transaction, the transaction, its
result, its collection and its events. What is stored has forms of its own; each is told as the record of its kind. -/

namespace Signatory
set_option autoImplicit false

structure StoredKey where
  index : Int
  publicKey : Bytes
  algorithm : SignatureAlgorithm
  hash : HashAlgorithm
  weight : Int := 1000
  sequenceNumber : Int := 0
  revoked : Bool := false
  deriving DecidableEq

def StoredKey.toRecord (k : StoredKey) : KeyRecord where
  index := k.index
  publicKey := k.publicKey
  algorithm := k.algorithm
  hash := k.hash
  weight := k.weight
  sequenceNumber := k.sequenceNumber
  revoked := k.revoked

structure StoredAccount where
  address : Bytes
  keys : List StoredKey
  balance : Int := 0
  deriving DecidableEq

namespace StoredAccount

def key? (a : StoredAccount) (index : Int) : Option StoredKey := a.keys.find? fun k => k.index = index

def toRecord (a : StoredAccount) : AccountRecord where
  address := a.address
  balance := a.balance
  keys := a.keys.map StoredKey.toRecord

end StoredAccount

structure StoredBlock where
  id : Bytes
  parent : Bytes
  height : Int
  timestamp : Moment
  collections : List Bytes
  deriving DecidableEq

def StoredBlock.toBlock (b : StoredBlock) : Block where
  id := b.id
  parent := b.parent
  height := b.height
  timestamp := b.timestamp
  collections := b.collections

/-- An event as its transaction emitted it. Whether type and payload are of the right kind is found out when the
event is read. -/
structure StoredEvent where
  type : Json
  transaction : Bytes
  transactionIndex : Int
  eventIndex : Int
  payload : Json

namespace StoredEvent

def typeField : Json → Checked Text
  | .text s => .ok s
  | _ => .fault "type" .notText

def payloadField : Json → Checked (List (Text × Json))
  | .object fields => .ok fields
  | _ => .fault "payload" .notMap

def toEvent (e : StoredEvent) : Except Error Event := do
  let (type, payload) ← ((typeField e.type).and (payloadField e.payload)).settle
  return ⟨type, e.transaction, e.transactionIndex, e.eventIndex, payload⟩

def hasType (type : Text) (e : StoredEvent) : Bool :=
  match e.type with
  | .text s => s == type
  | _ => false

/-- The events of one transaction, numbered from a position on. -/
def ofEmitted (transaction : Bytes) (position : Nat) : List Json → Except Error (List StoredEvent)
  | [] => .ok []
  | .object fields :: rest => do
    match Entries.find? ("type" : Text) fields with
    | none => .error (.missingField "type")
    | some type =>
      let payload := (Entries.find? ("payload" : Text) fields).getD (.object [])
      return ⟨type, transaction, 0, position, payload⟩ :: (← ofEmitted transaction (position + 1) rest)
  | _ :: _ => .error .wrongKind

end StoredEvent

structure StoredResult where
  transaction : Bytes
  block : Bytes
  errorMessage : Text
  events : List StoredEvent

/-- The result as it is read: whatever is stored is sealed. -/
def StoredResult.toResult (r : StoredResult) : Except Error TransactionResult := do
  return ⟨.sealed, r.errorMessage, ← r.events.mapM StoredEvent.toEvent, some r.block⟩

abbrev Accounts := OrderedMap Bytes StoredAccount

structure Ledger where
  accounts : Accounts
  /-- The chain, oldest block first. -/
  blocks : List StoredBlock
  transactions : OrderedMap Bytes LooseTransaction
  results : OrderedMap Bytes StoredResult
  collections : OrderedMap Bytes (List Bytes)
  events : OrderedMap Bytes (List StoredEvent)
  /-- How many accounts were ever registered. -/
  accountCounter : Nat

namespace Ledger

def empty : Ledger := ⟨.empty, [], .empty, .empty, .empty, .empty, 0⟩

def key? (l : Ledger) (address : Bytes) (index : Int) : Option StoredKey :=
  (l.accounts.find? address).bind (·.key? index)

def account (l : Ledger) (address : Bytes) : Except Rejection StoredAccount :=
  (l.accounts.find? address).elim (.error (.noAccount address)) .ok

def blockAt (l : Ledger) (height : Int) : Except Rejection StoredBlock :=
  match height with
  | .ofNat n => (l.blocks[n]?).elim (.error (.noBlockAt height)) .ok
  | .negSucc _ => .error (.noBlockAt height)

def blockNamed (l : Ledger) (id : Bytes) : Except Rejection StoredBlock :=
  (l.blocks.find? fun b => b.id = id).elim (.error (.noBlock id)) .ok

def transaction (l : Ledger) (id : Bytes) : Except Rejection LooseTransaction :=
  (l.transactions.find? id).elim (.error (.noTransaction id)) .ok

def result (l : Ledger) (id : Bytes) : Except Rejection StoredResult :=
  (l.results.find? id).elim (.error (.noResult id)) .ok

/-- No result goes by a double. -/
def resultOf (l : Ledger) : Ticket → Except Rejection StoredResult
  | .id id => l.result id
  | .double x => .error (.noResult (.double x))

/-- The transactions of a collection. -/
def collection (l : Ledger) (id : Bytes) : Except Rejection (List Bytes) :=
  (l.collections.find? id).elim (.error (.noCollection id)) .ok

def eventsIn (l : Ledger) (type : Text) (block : Bytes) : List StoredEvent :=
  ((l.events.find? block).getD []).filter (·.hasType type)

end Ledger

def Collection.ofStored (id : Bytes) (transactions : List Bytes) : Collection := ⟨id, transactions⟩

namespace BlockEvents

/-- The batch of a block among batches named by block: the first one that bears its name, or an empty one. -/
def ofStored (b : StoredBlock) (batches : List (Bytes × List StoredEvent)) : Except Error BlockEvents := do
  let stored := (Entries.find? b.id batches).getD []
  return { b.toBlock.noEvents with events := ← stored.mapM StoredEvent.toEvent }

end BlockEvents

end Signatory
