import Signatory.Json.Basic
import Signatory.Moment

/-! What a ledger tells about itself: accounts with their keys, blocks, events, results and collections. -/

namespace Signatory
set_option autoImplicit false

structure KeyRecord where
  index : Int
  publicKey : Bytes
  algorithm : SignatureAlgorithm
  hash : HashAlgorithm
  weight : Int := 1000
  sequenceNumber : Int := 0
  revoked : Bool := false
  deriving DecidableEq

structure AccountRecord where
  address : Bytes
  balance : Int := 0
  keys : List KeyRecord
  deriving DecidableEq

def AccountRecord.key? (a : AccountRecord) (index : Int) : Option KeyRecord :=
  a.keys.find? fun k => k.index = index

structure Block where
  id : Bytes
  parent : Bytes
  height : Int
  timestamp : Moment
  collections : List Bytes
  deriving DecidableEq

structure Event where
  type : Text
  transaction : Bytes
  transactionIndex : Int
  eventIndex : Int
  payload : List (Text × Json)

structure BlockEvents where
  block : Bytes
  height : Int
  timestamp : Moment
  events : List Event

def Block.noEvents (b : Block) : BlockEvents := ⟨b.id, b.height, b.timestamp, []⟩

inductive TransactionStatus where
  | unknown
  | pending
  | finalized
  | executed
  | sealed
  | expired
  deriving DecidableEq, Repr

namespace TransactionStatus

def all : List TransactionStatus := [unknown, pending, finalized, executed, sealed, expired]

def name : TransactionStatus → Text
  | unknown => "UNKNOWN"
  | pending => "PENDING"
  | finalized => "FINALIZED"
  | executed => "EXECUTED"
  | sealed => "SEALED"
  | expired => "EXPIRED"

def code : TransactionStatus → Int
  | unknown => 0
  | pending => 1
  | finalized => 2
  | executed => 3
  | sealed => 4
  | expired => 5

def ofCode? (code : Int) : Option TransactionStatus := all.find? fun s => s.code = code

/-- Whether nothing more happens to the transaction. -/
def isTerminal (s : TransactionStatus) : Bool := s = sealed || s = expired

end TransactionStatus

structure TransactionResult where
  status : TransactionStatus
  errorMessage : Text
  events : List Event
  block : Option Bytes

/-- A result is that of a failed execution when it tells an error. -/
def TransactionResult.failed (r : TransactionResult) : Bool := !r.errorMessage.isEmpty

structure Collection where
  id : Bytes
  transactions : List Bytes
  deriving DecidableEq

end Signatory
