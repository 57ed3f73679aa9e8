import Signatory.Gateway.Basic
import Signatory.Transaction.Signing

/-! The way of an envelope to the ledger: it is prepared from the state of the network, signed by all who must
sign, submitted, and its result is fetched. The envelope changes in place, also when a step fails. -/

namespace Signatory
set_option autoImplicit false

/-- What can be sent: a paper that can be signed, names the key that proposes it, and takes what the network adds. -/
class Sendable (ε : Type) extends Signable ε where
  keyIndex : ε → Int
  proposer : {β : Type} → Gateway β → ε → Action (Client β) AccountRecord
  /-- How the proposer is called: by the name that it has in the roles, or by its address. -/
  proposerName : ε → Except Error Text
  /-- The paper with its network fields set. The gas limit that is there stays. -/
  prepared : (reference : Bytes) → (defaultGasLimit sequenceNumber : Int) → ε → ε
  submit : {β : Type} → Gateway β → ε → Action (Client β) Ticket

/-- The name that an address has in the roles of a paper. -/
def Roles.nameOf? (roles : Option Roles) (address : Bytes) : Option Text := do
  let r ← roles
  let accounts := r.proposer.toList ++ r.payer.toList ++ r.authorizers
  return (← accounts.find? fun a => a.address = address).name

instance : Sendable Envelope where
  keyIndex e := e.proposalKey.keyIndex
  proposer g e := g.account e.proposalKey.address
  proposerName e :=
    let address := e.proposalKey.address
    .ok ((Roles.nameOf? e.roles address).getD (.concat ["0x", Bytes.hex address]))
  prepared reference defaultGasLimit sequenceNumber e :=
    { e with
      referenceBlock := some reference
      gasLimit := some (e.gasLimit.getD defaultGasLimit)
      proposalKey := { e.proposalKey with sequenceNumber := some sequenceNumber } }
  submit g := g.submit

instance : Sendable LooseEnvelope where
  keyIndex e := e.keyIndex
  proposer g e := g.accountOf e.proposer
  proposerName e :=
    match (LooseTransaction.bytes? e.proposer).bind (Roles.nameOf? e.roles) with
    | some name => .ok name
    | none => do return .concat ["0x", ← LooseTransaction.hex e.proposer]
  prepared reference defaultGasLimit sequenceNumber e :=
    { e with
      referenceBlock := .bytes reference
      gasLimit := if e.gasLimit matches .null then .int defaultGasLimit else e.gasLimit
      sequenceNumber := .int sequenceNumber }
  submit g := g.submitLoose

structure Draft (ε β : Type) where
  paper : ε
  client : Client β

namespace Draft

variable {ε β : Type}

def call {α : Type} (f : Action (Client β) α) : Action (Draft ε β) α := fun d =>
  let (result, client) := f d.client
  (result, { d with client })

def failureLine? : Error → Option Text
  | .signerFailed role account _ reason =>
    some (.concat ["Signing failed for ", role, " ", account, ": ", reason])
  | _ => none

section

variable [Signable ε]

def sign (roles : Option Roles) : Action (Draft ε β) Unit := fun d =>
  let (result, paper) := Signable.sign d.paper roles
  let line? :=
    match result with
    | .error e => failureLine? e
    | .ok () => none
  (result, { paper, client := line?.elim d.client fun line => d.client.log .error line })

end

variable [Sendable ε] (G : Gateway β)

/-- Sets reference block, gas limit and sequence number. -/
def prepare (defaultGasLimit : Int) : Action (Draft ε β) Unit := do
  let paper := (← get).paper
  let index := Sendable.keyIndex paper
  let account ← call (Sendable.proposer G paper)
  match (account.key? index).filter (!·.revoked) with
  | none => throw (.keyNotOnAccount "proposer" (← Sendable.proposerName paper) index)
  | some key =>
    let block ← call G.latestBlock
    modify fun d => { d with paper := Sendable.prepared block.id defaultGasLimit key.sequenceNumber d.paper }

def run (defaultGasLimit : Int) : Action (Draft ε β) Unit := do
  prepare G defaultGasLimit
  sign none

def submit : Action (Draft ε β) Ticket := do call (Sendable.submit G (← get).paper)

/-- Prepares, signs and submits, and gives what the result is asked for by. -/
def send : Action (Draft ε β) Ticket := do
  run G Envelope.defaultGasLimit
  submit G

def signAndSubmit (wait : Bool) (timeout : Option Number) : Action (Draft ε β) TransactionResult := do
  let ticket ← send G
  let result ← call (G.result ticket wait timeout)
  if result.failed then
    call (modify fun c =>
      c.log .warning (.concat ["Transaction ", ticket.hex, " failed: ", result.errorMessage]))
  return result

end Draft

end Signatory
