import Signatory.Argument
import Signatory.Record
import Signatory.Wire.Field

/-! Records as maps on the wire. Absent counts, balances, lists and messages have defaults; every other field
must be there. -/

namespace Signatory.Wire
set_option autoImplicit false
open Cbor

def mapOf (fields : List (Text × Value)) : Value := .map (fields.map fun f => (.text f.1, f.2))

end Signatory.Wire

namespace Signatory
set_option autoImplicit false

namespace Timestamp
open Cbor Wire

def toWire (w : Timestamp) : Value := mapOf [("seconds", .int w.seconds), ("nanos", .int w.nanos)]

def ofWire (v : Value) : Except Error Timestamp := do
  let seconds ← toInt (← optional "seconds" (.int 0) v)
  let nanos ← toInt (← optional "nanos" (.int 0) v)
  return ⟨seconds, nanos⟩

end Timestamp

namespace Moment
open Cbor Wire

def toWire (t : Moment) : Except Error Value := t.toTimestamp.map Timestamp.toWire

def ofWire (v : Value) : Except Error Moment := do (← Timestamp.ofWire v).toMoment

end Moment

namespace KeyRecord
open Cbor Wire

def toWire (k : KeyRecord) : Value :=
  mapOf [("index", .int k.index), ("public_key", .bytes k.publicKey), ("sig_algo", .text k.algorithm.name),
    ("hash_algo", .text k.hash.name), ("weight", .int k.weight),
    ("sequence_number", .int k.sequenceNumber), ("revoked", .bool k.revoked)]

def ofWire (v : Value) : Except Error KeyRecord := do
  let index ← toInt (← required "index" v)
  let publicKey ← required "public_key" v
  let algorithm ← required "sig_algo" v
  let hash ← required "hash_algo" v
  let weight ← toInt (← optional "weight" (.int 1000) v)
  let sequenceNumber ← toInt (← optional "sequence_number" (.int 0) v)
  let revoked := isTrue (← optional "revoked" (.bool false) v)
  let (publicKey, algorithm, hash) ← ((bytesField "public_key" publicKey).and
    ((memberField SignatureAlgorithm.ofName? "sig_algo" algorithm).and
      (memberField HashAlgorithm.ofName? "hash_algo" hash))).settle
  return { index, publicKey, algorithm, hash, weight, sequenceNumber, revoked }

end KeyRecord

namespace AccountRecord
open Cbor Wire

def toWire (a : AccountRecord) : Value :=
  mapOf [("address", .bytes a.address), ("balance", .int a.balance), ("keys", .list (a.keys.map KeyRecord.toWire))]

def ofWire (v : Value) : Except Error AccountRecord := do
  let address ← required "address" v
  let balance ← toInt (← optional "balance" (.int 0) v)
  let keys ← (← toItems (← optional "keys" (.list []) v)).mapM KeyRecord.ofWire
  let address ← (bytesField "address" address).settle
  return { address, balance, keys }

end AccountRecord

namespace Block
open Cbor Wire

def toWire (b : Block) : Except Error Value := do
  return mapOf [("id", .bytes b.id), ("parent_id", .bytes b.parent), ("height", .int b.height),
    ("timestamp", ← b.timestamp.toWire), ("collection_ids", .list (b.collections.map .bytes))]

def ofWire (v : Value) : Except Error Block := do
  let id ← required "id" v
  let parent ← required "parent_id" v
  let height ← toInt (← required "height" v)
  let timestamp ← Moment.ofWire (← required "timestamp" v)
  let collections ← toItems (← optional "collection_ids" (.list []) v)
  let (id, parent, collections) ← ((bytesField "id" id).and ((bytesField "parent_id" parent).and
    (bytesListField "collection_ids" collections))).settle
  return { id, parent, height, timestamp, collections }

end Block

namespace Event
open Cbor Wire

def toWire (e : Event) : Except Error Value := do
  return mapOf [("type", .text e.type), ("transaction_id", .bytes e.transaction),
    ("transaction_index", .int e.transactionIndex), ("event_index", .int e.eventIndex),
    ("payload", .bytes (← Argument.encode (.object e.payload)))]

/-- A payload travels as the bytes of a typed value. -/
def payloadOfWire : Value → Except Error (List (Text × Json))
  | .bytes b => do
    match ← Argument.decode b with
    | .object fields => return fields
    | _ => .error .wrongKind
  | _ => .error .noOperation

def ofWire (v : Value) : Except Error Event := do
  let type ← required "type" v
  let transaction ← required "transaction_id" v
  let transactionIndex ← toInt (← required "transaction_index" v)
  let eventIndex ← toInt (← required "event_index" v)
  let payload ← payloadOfWire (← required "payload" v)
  let (type, transaction) ←
    ((textField "type" type).and (bytesField "transaction_id" transaction)).settle
  return { type, transaction, transactionIndex, eventIndex, payload }

end Event

namespace BlockEvents
open Cbor Wire

def toWire (b : BlockEvents) : Except Error Value := do
  return mapOf [("block_id", .bytes b.block), ("block_height", .int b.height),
    ("block_timestamp", ← b.timestamp.toWire), ("events", .list (← b.events.mapM Event.toWire))]

def ofWire (v : Value) : Except Error BlockEvents := do
  let block ← required "block_id" v
  let height ← toInt (← required "block_height" v)
  let timestamp ← Moment.ofWire (← required "block_timestamp" v)
  let events ← (← toItems (← optional "events" (.list []) v)).mapM Event.ofWire
  let block ← (bytesField "block_id" block).settle
  return { block, height, timestamp, events }

end BlockEvents

namespace TransactionResult
open Cbor Wire

def toWire (r : TransactionResult) : Except Error Value := do
  return mapOf [("status", .int r.status.code), ("error_message", .text r.errorMessage),
    ("events", .list (← r.events.mapM Event.toWire)), ("block_id", (r.block.map Value.bytes).getD .null)]

/-- A block that counts as false is no block. -/
def blockOfWire (v : Value) : Checked (Option Bytes) :=
  if isTrue v then (bytesField "block_id" v).map some else .ok none

def ofWire (v : Value) : Except Error TransactionResult := do
  let code ← toInt (← optional "status" (.int 0) v)
  match TransactionStatus.ofCode? code with
  | none => .error .unreadable
  | some status =>
    let errorMessage ← optional "error_message" (.text []) v
    let events ← (← toItems (← optional "events" (.list []) v)).mapM Event.ofWire
    let block ← optional "block_id" .null v
    let (errorMessage, block) ← ((textField "error_message" errorMessage).and (blockOfWire block)).settle
    return { status, errorMessage, events, block }

end TransactionResult

namespace Collection
open Cbor Wire

def toWire (c : Collection) : Value :=
  mapOf [("id", .bytes c.id), ("transaction_ids", .list (c.transactions.map .bytes))]

def ofWire (v : Value) : Except Error Collection := do
  let id ← required "id" v
  let transactions ← toItems (← optional "transaction_ids" (.list []) v)
  let (id, transactions) ←
    ((bytesField "id" id).and (bytesListField "transaction_ids" transactions)).settle
  return { id, transactions }

end Collection

end Signatory
