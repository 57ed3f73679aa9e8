import Signatory.Gateway.Basic
import Signatory.Wire.Message
import Signatory.Wire.Transaction

/-! The gateway to a node of a live network. Every operation is one call, or one call and another for each block
of a range. Requests and answers are messages. -/

namespace Signatory
set_option autoImplicit false
open Cbor Wire

structure RpcFault where
  code : Option Text
  details : Option Text
  /-- The failure in words, for when there are no details. -/
  description : Text

namespace RpcFault

def unknownCode : Text := "UNKNOWN"

/-- The details, or else the description. -/
def reason (f : RpcFault) : Text := (f.details.filter (!·.isEmpty)).getD f.description

def toError (f : RpcFault) (method : Text) : Error :=
  if f.code = some ("DEADLINE_EXCEEDED" : Text) then .timeout (.concat [method, " timed out: ", f.reason])
  else if f.code = some ("UNAVAILABLE" : Text) then
    .connection (.concat ["access node unavailable: ", f.reason])
  else .response (.concat [method, " failed: ", f.reason]) (f.code.getD unknownCode)

end RpcFault

/-- Why a call came to nothing: the channel tells of a fault, or it lets an error pass that is none of its own. -/
inductive CallFailure where
  | rpc (fault : RpcFault)
  | unanswered (e : Error)

def CallFailure.toError (method : Text) : CallFailure → Error
  | rpc fault => fault.toError method
  | unanswered e => e

/-- A node behind a channel. What the channel makes of a request that cannot be written, or of an answer that cannot be
read, is up to it: one of gRPC tells of an internal fault, a plain one lets the error pass. -/
structure Node (ν : Type) where
  answer : (method : Text) → (request : Bytes) → ν → Except CallFailure Bytes × ν
  unwritten : Error → CallFailure
  unread : Error → CallFailure

/-- What went over a channel: a call with its request, the seconds it was given and what it said about its
sender, or the end. -/
inductive ChannelEvent where
  | call (path : Text) (request : Bytes) (timeout : Number) (metadata : List (Text × Text))
  | close

structure Remote (ν : Type) where
  node : Node ν
  host : Text
  secure : Bool
  apiKey : Option Text
  /-- Seconds that one call may take. -/
  timeout : Number
  pollInterval : Number

namespace Remote

structure State (ν : Type) where
  node : ν
  /-- What went over the channel, in order. -/
  sent : List ChannelEvent

def path (method : Text) : Text := .concat ["/ledgerkit.access.AccessAPI/", method]

variable {ν : Type} (R : Remote ν)

/-- What every call says about its sender. -/
def metadata : List (Text × Text) :=
  match R.apiKey with
  | some key => [("authorization", .concat ["Bearer ", key])]
  | none => []

/-- What a call comes to by what the node has answered. -/
def reading (method : Text) : Except CallFailure Bytes → Except Error Value
  | .error failure => .error (failure.toError method)
  | .ok response => (decodeMessage response).mapError fun e => (R.node.unread e).toError method

/-- One call: the request goes out, unless it cannot be written, and the answer is read. -/
def call (method : Text) (request : Value) : Action (Client (State ν)) Value :=
  Client.onBackend fun s =>
    match encodeMessage request with
    | .error e => (.error ((R.node.unwritten e).toError method), s)
    | .ok data =>
      let (answer, node) := R.node.answer method data s.node
      (R.reading method answer, ⟨node, s.sent ++ [.call (path method) data R.timeout R.metadata]⟩)

def fetch {α : Type} (method : Text) (request : Value) (name : Text) (read : Value → Except Error α) :
    Action (Client (State ν)) α := do
  let response ← R.call method request
  read (← required name response)

/-- The item that a submission is answered with; nothing is asked of it but a hexadecimal text. -/
def ticketOf (v : Value) : Except Error Ticket := (Ticket.ofItem? v).elim (.error .noOperation) .ok

def submit (e : Envelope) : Action (Client (State ν)) Ticket := do
  e.checkComplete
  let transaction ← e.toWire
  R.fetch "SendTransaction" (mapOf [("transaction", transaction)]) "id" ticketOf

def submitLoose (e : LooseEnvelope) : Action (Client (State ν)) Ticket := do
  e.checkComplete
  let transaction ← e.toWire
  R.fetch "SendTransaction" (mapOf [("transaction", transaction)]) "id" ticketOf

def accountOf (address : Value) : Action (Client (State ν)) AccountRecord :=
  R.fetch "GetAccountAtLatestBlock" (mapOf [("address", address)]) "account" AccountRecord.ofWire

def fetchResult (ticket : Ticket) : Action (Client (State ν)) TransactionResult := do
  TransactionResult.ofWire (← R.call "GetTransactionResult" (mapOf [("id", ticket.item)]))

def script (script : Bytes) (arguments : List Json) : Action (Client (State ν)) Json := do
  let arguments ← (arguments.mapM Argument.encode : Except Error _)
  R.fetch "ExecuteScriptAtLatestBlock"
    (mapOf [("script", .bytes script), ("arguments", .list (arguments.map .bytes))]) "value"
    LooseTransaction.argumentOfWire

def blockAt (height : Int) : Action (Client (State ν)) Block :=
  R.fetch "GetBlockByHeight" (mapOf [("height", .int height)]) "block" Block.ofWire

/-- The batch that an answer has for a height; of several, the last. -/
def batchAt (batches : List BlockEvents) (height : Int) : Option BlockEvents :=
  batches.reverse.find? fun b => b.height = height

def droppedLine (height : Int) (batch : BlockEvents) (block : Block) : Text :=
  .concat ["Dropping events at height ", .ofInt height, ": block ", Bytes.hex batch.block,
    " is not the sealed block ", Bytes.hex block.id]

/-- The batch of one height: that of the answer if it belongs to the sealed block, an empty one otherwise. -/
def eventsAt (batches : List BlockEvents) (height : Int) : Action (Client (State ν)) BlockEvents := do
  let block ← R.blockAt height
  match batchAt batches height with
  | none => return block.noEvents
  | some batch =>
    if batch.block = block.id then return batch
    modify fun c => c.log .warning (droppedLine height batch block)
    return block.noEvents

def eventsFrom (batches : List BlockEvents) : (count : Nat) → (height : Int) →
    Action (Client (State ν)) (List BlockEvents)
  | 0, _ => return []
  | n + 1, height => do
    let batch ← R.eventsAt batches height
    return batch :: (← eventsFrom batches n (height + 1))

def events (type : Text) (first last : Int) : Action (Client (State ν)) (List BlockEvents) := do
  Gateway.checkRange first last
  let response ← R.call "GetEventsForHeightRange"
    (mapOf [("type", .text type), ("start_height", .int first), ("end_height", .int last)])
  let items ← toItems (← optional "results" (.list []) response)
  let batches ← (items.mapM BlockEvents.ofWire : Except Error _)
  R.eventsFrom batches (last - first + 1).toNat first

def gateway : Gateway (State ν) where
  ping := do
    let _ ← R.call "Ping" (mapOf [])
  account address := R.accountOf (.bytes address)
  accountOf := R.accountOf
  submit := R.submit
  submitLoose := R.submitLoose
  transaction id := R.fetch "GetTransaction" (mapOf [("id", .bytes id)]) "transaction" LooseTransaction.ofWire
  fetchResult := R.fetchResult
  script := R.script
  latestBlock := R.fetch "GetLatestBlock" (mapOf [("is_sealed", .bool true)]) "block" Block.ofWire
  blockNamed id := R.fetch "GetBlockByID" (mapOf [("id", .bytes id)]) "block" Block.ofWire
  blockAt := R.blockAt
  events := R.events
  collection id := R.fetch "GetCollectionByID" (mapOf [("id", .bytes id)]) "collection" Collection.ofWire
  close := Client.onBackend fun s => (.ok (), { s with sent := s.sent ++ [.close] })
  pollInterval := R.pollInterval

end Remote

end Signatory
