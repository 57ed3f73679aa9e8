import Signatory.Gateway.Open
import Signatory.Scenario.Account
import Signatory.Scenario.Node
import Signatory.Scenario.Paper
import Signatory.Scenario.Rules

/-! A session: a configuration of accounts, and gateways, roles and envelopes in named slots. Its steps act on
them one after another; a step that fails keeps what it did before. -/

namespace Signatory.Scenario
set_option autoImplicit false

inductive Connection where
  | embedded (gateway : Embedded Nat) (state : Embedded.State Nat)
  | remote (gateway : Remote NodeScript) (channel : Channel) (state : Remote.State NodeScript)

inductive Fault where
  | error (e : Error)
  | noSlot (name : Text)
  | noAccount (name : Text)

structure Session where
  suite : CryptoSuite
  env : Environment
  reading : Text → Except Text Bytes
  directory : Directory
  /-- The number of the next account. -/
  nextRef : Nat
  gateways : OrderedMap Text Connection
  roles : OrderedMap Text Roles
  papers : OrderedMap Text Paper
  /-- What the last submission from each slot was answered with. -/
  submitted : OrderedMap Text Ticket
  /-- What all gateways have around them. -/
  surroundings : Client Unit
  /-- What went over all channels. -/
  traffic : List ChannelEvent

abbrev Stepping (α : Type) := ExceptT Fault (StateM Session) α

namespace Stepping

variable {α : Type}

def lift (r : Except Error α) : Stepping α := liftM (r.mapError Fault.error)

def slot (read : Session → OrderedMap Text α) (name : Text) : Stepping α := do
  match (read (← get)).find? name with
  | some x => return x
  | none => throw (.noSlot name)

end Stepping

namespace Session

def empty (suite : CryptoSuite) (env : Environment) (reading : Text → Except Text Bytes) : Session where
  suite
  env
  reading
  directory := ⟨[]⟩
  nextRef := 0
  gateways := .empty
  roles := .empty
  papers := .empty
  submitted := .empty
  surroundings := .start ()
  traffic := []

/-- The account of a plan, with a number of its own. -/
def newAccount (plan : AccountPlan) : Stepping Account := do
  let account ← .lift (plan.account (← get).suite)
  let account := { account with ref := (← get).nextRef }
  modify fun s => { s with nextRef := s.nextRef + 1 }
  return account

def start (plans : List AccountPlan) : Stepping Unit := do
  let accounts ← plans.mapM newAccount
  modify fun s => { s with directory := ⟨accounts⟩ }

def account (name : Text) : Stepping Account := do
  match (← get).directory.findName? name with
  | some a => return a
  | none => throw (.noAccount name)

def changeAccount (ref : Nat) (f : Account → Account) : Stepping Unit :=
  modify fun s => { s with
    directory := s.directory.update ref f
    roles := ⟨s.roles.entries.map fun e => (e.1, e.2.update ref f), by
      have h := s.roles.nodup
      simpa [Entries.keys, Function.comp_def] using h⟩
    papers := ⟨s.papers.entries.map fun e => (e.1, e.2.updateRoles ref f), by
      have h := s.papers.nodup
      simpa [Entries.keys, Function.comp_def] using h⟩ }

/-- Forgets what the last step logged, waited and sent. -/
def beginStep (s : Session) : Session :=
  { s with
    traffic := []
    surroundings := { s.surroundings with
      journal := [], cancel := none, timeline := { s.surroundings.timeline with pauses := [] } } }

/-- The lines of a step that tell of problems. -/
def problems (s : Session) : List LogLine := s.surroundings.journal.filter (·.level.isProblem)

def paper (name : Text) : Stepping Paper := Stepping.slot papers name

def storePaper (name : Text) (p : Paper) : Stepping Unit :=
  modify fun s => { s with papers := s.papers.insert name p }

def storeEnvelope (name : Text) (e : Envelope) : Stepping Unit := storePaper name (.envelope e)

variable {α : Type}

/-- Runs something on a backend and keeps what became of it. -/
def within {β : Type} (state : β) (keep : β → Connection) (name : Text)
    (f : Client β → Except Error α × Client β) : Stepping α := do
  let (result, client) := f ((← get).surroundings.withBackend state)
  modify fun s => { s with
    gateways := s.gateways.insert name (keep client.backend)
    surroundings := client.withBackend () }
  .lift result

/-- Keeps a remote state, and moves what went over its channel to the session. -/
def withinRemote (gateway : Remote NodeScript) (channel : Channel) (state : Remote.State NodeScript) (name : Text)
    (f : Client (Remote.State NodeScript) → Except Error α × Client (Remote.State NodeScript)) : Stepping α := do
  let (result, client) := f ((← get).surroundings.withBackend state)
  modify fun s => { s with
    gateways := s.gateways.insert name (.remote gateway channel { client.backend with sent := [] })
    surroundings := client.withBackend ()
    traffic := s.traffic ++ client.backend.sent }
  .lift result

def through (name : Text) (f : {β : Type} → Gateway β → Action (Client β) α) : Stepping α := do
  match ← Stepping.slot gateways name with
  | .embedded gateway state => within state (.embedded gateway) name (f gateway.gateway)
  | .remote gateway channel state => withinRemote gateway channel state name (f gateway.gateway)

/-- A call that only an engine in the program answers. -/
def throughEmbedded (name : Text) (f : Action (Client (Embedded.State Nat)) α) : Stepping α := do
  match ← Stepping.slot gateways name with
  | .embedded gateway state => within state (.embedded gateway) name f
  | .remote .. => throw (.error .noOperation)

def setCancel (cancel : Option CancelSignal) : Stepping Unit :=
  modify fun s => { s with surroundings := { s.surroundings with cancel } }

/-- A paper in its slot together with a gateway; what becomes of it is stored also when the call fails. -/
def drafting (gateway slot : Text) (f : {ε β : Type} → [Sendable ε] → Gateway β → Action (Draft ε β) α) :
    Stepping α := do
  let _ ← Stepping.slot gateways gateway
  let p ← paper slot
  let (result, p) ← through gateway fun g c =>
    let (result, p, c) := p.drafted (f g) c
    (.ok (result, p), c)
  storePaper slot p
  .lift result

/-- How a step names a transaction, a block or a collection. -/
inductive Identifier where
  | bytes (id : Bytes)
  /-- The last transaction that was submitted from a slot. -/
  | submitted (paper : Text)
  /-- The transaction that a slot holds, as it is now. -/
  | present (paper : Text)
  | blockAt (height : Int)
  /-- The first collection of a block. -/
  | collectionAt (height : Int)

/-- What an identifier stands for; blocks are looked up through a gateway. -/
def resolve (gateway : Text) : Identifier → Stepping Ticket
  | .bytes id => return id
  | .submitted slot => Stepping.slot submitted slot
  | .present slot => do .lift ((← paper slot).id (← get).suite)
  | .blockAt height => do return (← through gateway fun g => g.blockAt height).id
  | .collectionAt height => do
    let block ← through gateway fun g => g.blockAt height
    let id ← .lift (block.collections.head?.elim (.error .outOfRange) .ok)
    return id

/-- What an identifier stands for at a gateway that must be there. -/
def ticketAt (gateway : Text) (id : Identifier) : Stepping Ticket := do
  let _ ← Stepping.slot gateways gateway
  resolve gateway id

/-- The bytes of an identifier. A double names nothing but a result. -/
def resolveAt (gateway : Text) (id : Identifier) : Stepping Bytes := do
  match ← ticketAt gateway id with
  | .id id => return id
  | .double _ => throw (.error .noOperation)

end Session

end Signatory.Scenario
