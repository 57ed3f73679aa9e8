import Signatory.Scenario.Session

/-! Steps through gateways. -/

namespace Signatory.Scenario.Session
set_option autoImplicit false

structure GatewayPlan where
  /-- The network, unless its fields make none. -/
  network : Except Error Network
  options : GatewayOptions
  runtime : Runtime Nat
  responses : NodeScript

def GatewayPlan.open (plan : GatewayPlan) (suite : CryptoSuite) (service : Option Account) (env : Environment)
    (reading : Text → Except Text Bytes) : Opening Connection := do
  let network ← plan.network
  if network.isEmbedded then
    let (gateway, state) ← Embedded.openNew suite plan.runtime 0 service plan.options env
    return .embedded gateway state
  else
    let (gateway, channel) ← Remote.openNew scriptedNode network plan.options env reading
    return .remote gateway channel ⟨plan.responses, []⟩

def openGateway (slot : Text) (plan : GatewayPlan) (service : Option Text) : Stepping Connection := do
  let service ← service.mapM account
  let s ← get
  let (result, lines) := (plan.open s.suite service s.env s.reading).run.run []
  modify fun s =>
    { s with surroundings := { s.surroundings with journal := s.surroundings.journal ++ lines } }
  let connection ← .lift result
  modify fun s => { s with gateways := s.gateways.insert slot connection }
  return connection

/-- Registers the keys of an account on the ledger; the account may take over the address it gets. -/
def register (gateway name : Text) (adopt : Bool) : Stepping Bytes := do
  let a ← account name
  let address ← throughEmbedded gateway (Embedded.createAccount a.keys)
  if adopt then changeAccount a.ref fun a => { a with address }
  return address

def createSnapshot (gateway name : Text) : Stepping Unit :=
  throughEmbedded gateway (Embedded.createSnapshot name)

def loadSnapshot (gateway name : Text) : Stepping Unit := throughEmbedded gateway (Embedded.loadSnapshot name)

def snapshotNames (gateway : Text) : Stepping (List Text) := throughEmbedded gateway Embedded.snapshotNames

def prepare (gateway slot : Text) (defaultGasLimit : Int) : Stepping Paper := do
  drafting gateway slot fun g => Draft.prepare g defaultGasLimit
  paper slot

def sign (gateway slot : Text) (rolesSlot : Option Text) : Stepping Paper := do
  let roles ← rolesSlot.mapM (Stepping.slot roles)
  drafting gateway slot fun _ => Draft.sign roles
  paper slot

def prepareAndSign (gateway slot : Text) (defaultGasLimit : Int) : Stepping Paper := do
  drafting gateway slot fun g => Draft.run g defaultGasLimit
  paper slot

def noteSubmitted (slot : Text) (ticket : Ticket) : Stepping Unit :=
  modify fun s => { s with submitted := s.submitted.insert slot ticket }

def submit (gateway slot : Text) : Stepping Ticket := do
  let ticket ← drafting gateway slot fun g => Draft.submit g
  noteSubmitted slot ticket
  return ticket

def send (gateway slot : Text) : Stepping Ticket := do
  let _ ← paper slot
  let ticket ← drafting gateway slot fun g => Draft.send g
  noteSubmitted slot ticket
  return ticket

def signAndSubmit (gateway slot : Text) (wait : Bool) (timeout : Option Number) (cancel : Option CancelSignal) :
    Stepping (Paper × TransactionResult) := do
  let _ ← paper slot
  setCancel cancel
  let result ← drafting gateway slot fun g => Draft.signAndSubmit g wait timeout
  let p ← paper slot
  noteSubmitted slot (← .lift (p.id (← get).suite))
  return (p, result)

def transaction (gateway : Text) (id : Identifier) (target : Option Text) : Stepping Paper := do
  let id ← resolveAt gateway id
  let p := Paper.ofTransaction (← through gateway fun g => g.transaction id)
  if let some slot := target then storePaper slot p
  return p

def result (gateway : Text) (id : Identifier) (wait : Bool) (timeout : Option Number)
    (cancel : Option CancelSignal) : Stepping TransactionResult := do
  let ticket ← ticketAt gateway id
  setCancel cancel
  through gateway fun g => g.result ticket wait timeout

/-- Looks twice at a result that has events; what is done to the first look does not show in the second. -/
def resultTwice (gateway : Text) (id : Identifier) : Stepping TransactionResult := do
  let ticket ← ticketAt gateway id
  let first ← through gateway fun g => g.fetchResult ticket
  if first.events.isEmpty then throw (.error .outOfRange)
  through gateway fun g => g.fetchResult ticket

def script (gateway : Text) (source : ScriptSource) (arguments : List Json) : Stepping Json := do
  let _ ← Stepping.slot gateways gateway
  let code ← .lift source.toBytes
  through gateway fun g => g.script code arguments

end Signatory.Scenario.Session
