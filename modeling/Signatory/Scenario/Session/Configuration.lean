import Signatory.Scenario.Session

/-! Steps on accounts, roles and envelopes. -/

namespace Signatory.Scenario.Session
set_option autoImplicit false

/-- Adds an account, or puts it in the place of one with its name. -/
def add (plan : AccountPlan) : Stepping Account := do
  let account ← newAccount plan
  modify fun s => { s with directory := s.directory.put account }
  return account

def remove (name : Text) : Stepping Unit := do
  let directory ← .lift ((← get).directory.remove name)
  modify fun s => { s with directory }

def changeKey (name : Text) (position : Int) (f : AccountKey → AccountKey) : Stepping Unit := do
  let a ← account name
  match Position.place? a.keys.length position with
  | none => throw (.error .outOfRange)
  | some place => changeAccount a.ref fun a => { a with keys := a.keys.modify place f }

/-- Puts a new key at a position, or at the end when there is none, then another signer into the key that stands
there, then another index; the last two unchecked. -/
def setKey (name : Text) (position : Int) (key signer : Option KeyPlan) (index : Option Int) :
    Stepping (List AccountKey) := do
  let a ← account name
  let suite := (← get).suite
  if let some plan := key then
    let key ← .lift (plan.accountKey suite)
    changeAccount a.ref fun a => { a with keys := Position.put position key a.keys }
  if let some plan := signer then
    let signer ← .lift (plan.signer suite)
    changeKey name position fun k => { k with signer }
  if let some index := index then
    changeKey name position fun k => { k with index }
  return (← account name).keys

def resolveRoles (slot : Text) (signer proposer payer : Option Text) (authorizers : List Text) :
    Stepping Roles := do
  let roles ← .lift (Roles.resolve (← get).directory signer proposer payer authorizers)
  modify fun s => { s with roles := s.roles.insert slot roles }
  return roles

def rolesIn (slot : Text) : Stepping Roles := Stepping.slot roles slot

/-- Builds an envelope; the slot keeps what it holds when that fails. -/
def build (slot rolesSlot : Text) (script : ScriptSource) (arguments : List Json)
    (gasLimit requiredAuthorizers : Option Int) : Stepping Envelope := do
  let e ← .lift (Envelope.build (← rolesIn rolesSlot) script arguments gasLimit requiredAuthorizers)
  storeEnvelope slot e
  return e

inductive Edit where
  | script (script : Bytes)
  | payer (address : Bytes)
  | proposer (address : Bytes)
  | keyIndex (index : Int)
  | sequenceNumber (number : Option Int)
  | gasLimit (limit : Option Int)
  | authorizers (addresses : List Bytes)
  | arguments (arguments : List Json)
  | referenceBlock (id : Option Identifier)
  | roles (slot : Option Text)
  | signature (kind : SignatureKind) (key : Bytes × Int) (signature : Option Bytes)
  | swapSignatures
  /-- Reverses the order of the payload signatures. -/
  | reverseSignatures

def putSignature (key : Bytes × Int) (signature : Option Bytes) (signatures : LooseSignatures) : LooseSignatures :=
  let key : Cbor.Value × Int := (.bytes key.1, key.2)
  match signature with
  | some signature => Entries.insert key (.bytes signature) signatures
  | none => Entries.erase key signatures

open Transaction (ofOptional)

def edited (gateway : Text) (e : LooseEnvelope) : Edit → Stepping LooseEnvelope
  | .script script => return { e with script := .bytes script }
  | .payer payer => return { e with payer := .bytes payer }
  | .proposer address => return { e with proposer := .bytes address }
  | .keyIndex keyIndex => return { e with keyIndex }
  | .sequenceNumber number => return { e with sequenceNumber := ofOptional .int number }
  | .gasLimit limit => return { e with gasLimit := ofOptional .int limit }
  | .authorizers addresses => return { e with authorizers := addresses.map .bytes }
  | .arguments arguments => return { e with arguments }
  | .referenceBlock none => return { e with referenceBlock := .null }
  | .referenceBlock (some id) => do return { e with referenceBlock := (← resolve gateway id).item }
  | .roles none => return { e with roles := none }
  | .roles (some slot) => do return { e with roles := some (← rolesIn slot) }
  | .signature .payload key signature =>
    return { e with payloadSignatures := putSignature key signature e.payloadSignatures }
  | .signature .envelope key signature =>
    return { e with envelopeSignatures := putSignature key signature e.envelopeSignatures }
  | .swapSignatures =>
    return { e with payloadSignatures := e.envelopeSignatures, envelopeSignatures := e.payloadSignatures }
  | .reverseSignatures => return { e with payloadSignatures := e.payloadSignatures.reverse }

/-- Edits one after another; those before one that fails, or that cannot be read, stay. -/
def edit (gateway slot : Text) (edits : List (Except Error Edit)) : Stepping Paper := do
  let _ ← paper slot
  for change in edits do
    storePaper slot (.ofLoose (← edited gateway (← paper slot).loosen (← .lift change)))
  paper slot

def travelled (transaction : Cbor.Value) : Except Error LooseTransaction := do
  let message ← Wire.decodeMessage (← Wire.encodeMessage (Wire.mapOf [("transaction", transaction)]))
  LooseTransaction.ofWire (← Wire.required "transaction" message)

/-- Sends a paper through its message into another slot. -/
def overWire (slot target : Text) : Stepping Paper := do
  let p ← paper slot
  let received := Paper.ofTransaction (← .lift (p.toWire >>= travelled))
  storePaper target received
  return received

/-- Whether two slots hold equal transactions; what one slot holds is always equal to itself. -/
def equal (a b : Text) : Stepping Bool := do
  let p ← paper a
  let q ← paper b
  return a == b || p.alike q

end Signatory.Scenario.Session
