import Signatory.Client
import Signatory.Transaction.LooseEnvelope

/-! A gateway is the one point of contact with a ledger. What builds, signs and submits transactions is written
against these operations alone, whatever answers them. -/

namespace Signatory
set_option autoImplicit false

/-- The operations on a backend with the state `β`. -/
structure Gateway (β : Type) where
  ping : Action (Client β) Unit
  account : (address : Bytes) → Action (Client β) AccountRecord
  accountOf : (address : Cbor.Value) → Action (Client β) AccountRecord
  /-- Submits a signed envelope and gives what its result is asked for by. -/
  submit : Envelope → Action (Client β) Ticket
  submitLoose : LooseEnvelope → Action (Client β) Ticket
  transaction : (id : Bytes) → Action (Client β) LooseTransaction
  /-- One look at the result of a transaction. -/
  fetchResult : Ticket → Action (Client β) TransactionResult
  script : (script : Bytes) → (arguments : List Json) → Action (Client β) Json
  latestBlock : Action (Client β) Block
  blockNamed : (id : Bytes) → Action (Client β) Block
  blockAt : (height : Int) → Action (Client β) Block
  /-- The events of a type, one batch for each height of a range, both ends included. -/
  events : (type : Text) → (first last : Int) → Action (Client β) (List BlockEvents)
  collection : (id : Bytes) → Action (Client β) Collection
  close : Action (Client β) Unit
  /-- Seconds between two looks at a result. -/
  pollInterval : Number

namespace Gateway

variable {β : Type}

/-- The result of a transaction: as it is now, or once it is final. -/
def result (g : Gateway β) (ticket : Ticket) (wait : Bool) (timeout : Option Number) :
    Action (Client β) TransactionResult :=
  if wait then Client.waitForSeal g.fetchResult ⟨g.pollInterval, timeout⟩ ticket else g.fetchResult ticket

def checkRange (first last : Int) : Except Error Unit :=
  if last < first then .error (.heightRange first last) else .ok ()

end Gateway

end Signatory
