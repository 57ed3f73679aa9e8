import Signatory.Gateway.Basic
import Signatory.Ledger.LooseSubmission

/-! The gateway to an engine in the program. It can also keep the whole ledger under a name and bring it back. -/

namespace Signatory
set_option autoImplicit false

structure Embedded (μ : Type) where
  engine : Engine μ
  pollInterval : Number

namespace Embedded

structure State (μ : Type) where
  engine : Engine.State μ
  snapshots : OrderedMap Text Ledger

variable {μ : Type} (G : Embedded μ)

def State.ledger (s : State μ) : Ledger := s.engine.ledger

def query {α : Type} (f : Ledger → Except Error α) : Action (Client (State μ)) α :=
  Client.onBackend fun s => (f s.ledger, s)

def change {α : Type} (f : Engine.State μ → Except Error α × Engine.State μ) : Action (Client (State μ)) α :=
  Client.onBackend fun s =>
    let (result, engine) := f s.engine
    (result, { s with engine })

def crashLine? (subject : Text) : Error → Option Text
  | .rejected (.execution reason) | .rejected (.scriptCrash reason) =>
    some (.concat ["Runtime error while executing ", subject, ": ", reason])
  | _ => none

/-- The same call; a crash of the runtime is logged. -/
def loggingCrash {α : Type} (subject : Text) (call : Action (Client (State μ)) α) : Action (Client (State μ)) α :=
  fun c =>
    match call c with
    | (.error e, c) =>
      (.error e,
        match crashLine? subject e with
        | some line => c.log .error line
        | none => c)
    | answer => answer

def subject (id : Except Error Bytes) : Text :=
  match id with
  | .ok id => .concat ["transaction ", Bytes.hex id]
  | .error _ => "transaction"

def submit (e : Envelope) : Action (Client (State μ)) Bytes := do
  e.checkComplete
  loggingCrash (subject (e.id G.engine.suite)) (change fun s => G.engine.submit s e.toTransaction)

def submitLoose (e : LooseEnvelope) : Action (Client (State μ)) Bytes := do
  e.checkComplete
  loggingCrash (subject (e.id G.engine.suite)) (change fun s => G.engine.submitLoose s e.toLooseTransaction)

def script (script : Bytes) (arguments : List Json) : Action (Client (State μ)) Json :=
  loggingCrash "script" (change fun s => G.engine.evaluate s script arguments)

/-- The batches of so many heights from one on. -/
def eventsFrom (l : Ledger) (type : Text) : (count : Nat) → (height : Int) → Except Error (List BlockEvents)
  | 0, _ => .ok []
  | n + 1, height => do
    let block ← Engine.reject (l.blockAt height)
    let batch ← BlockEvents.ofStored block [(block.id, l.eventsIn type block.id)]
    return batch :: (← eventsFrom l type n (height + 1))

def events (l : Ledger) (type : Text) (first last : Int) : Except Error (List BlockEvents) := do
  Gateway.checkRange first last
  eventsFrom l type (last - first + 1).toNat first

def gateway : Gateway (State μ) where
  ping := pure ()
  account address := query fun l => StoredAccount.toRecord <$> Engine.reject (l.account address)
  accountOf address := query fun l => StoredAccount.toRecord <$> Engine.accountOf l address
  submit e := Ticket.id <$> G.submit e
  submitLoose e := Ticket.id <$> G.submitLoose e
  transaction id := query fun l => Engine.reject (l.transaction id)
  fetchResult ticket := query fun l => do (← Engine.reject (l.resultOf ticket)).toResult
  script := G.script
  latestBlock := query fun l => StoredBlock.toBlock <$> l.blocks.getLast?.elim (.error .missingEntry) .ok
  blockNamed id := query fun l => StoredBlock.toBlock <$> Engine.reject (l.blockNamed id)
  blockAt height := query fun l => StoredBlock.toBlock <$> Engine.reject (l.blockAt height)
  events type first last := query fun l => events l type first last
  collection id := query fun l => Collection.ofStored id <$> Engine.reject (l.collection id)
  close := pure ()
  pollInterval := G.pollInterval

def rawKey (k : AccountKey) : Engine.RawKey := ⟨k.signer.publicKey, k.algorithm, k.hash⟩

def createAccount (keys : List AccountKey) : Action (Client (State μ)) Bytes :=
  change fun s =>
    let (address, s) := Engine.createAccount s (keys.map rawKey)
    (.ok address, s)

/-- Keeps the ledger under a name, in place of what was there. -/
def createSnapshot (name : Text) : Action (Client (State μ)) Unit :=
  Client.onBackend fun s => (.ok (), { s with snapshots := s.snapshots.insert name s.ledger })

/-- Brings back the ledger that is kept under a name. -/
def loadSnapshot (name : Text) : Action (Client (State μ)) Unit :=
  Client.onBackend fun s =>
    match s.snapshots.find? name with
    | none => (.error (.snapshotNotFound name), s)
    | some ledger => (.ok (), { s with engine := { s.engine with ledger } })

def snapshotNames : Action (Client (State μ)) (List Text) :=
  Client.onBackend fun s => (.ok (s.snapshots.keys.mergeSort Text.le), s)

end Embedded

end Signatory
