import Signatory.Transaction.Roles
import Signatory.Transaction.Basic

/-! Envelopes: transactions on the way to being signed. The roles that an envelope was built from, while
they are attached, say which key must sign what. -/

namespace Signatory
set_option autoImplicit false

inductive SignatureKind where
  | payload
  | envelope
  deriving DecidableEq, Repr

def SignatureKind.name : SignatureKind → Text
  | payload => "payload"
  | envelope => "envelope"

structure Requirement where
  address : Bytes
  keyIndex : Int
  kind : SignatureKind
  role : Text
  account : Account

/-- What tells two requirements apart. -/
def Requirement.slot (r : Requirement) : Bytes × Int × SignatureKind := (r.address, r.keyIndex, r.kind)

namespace Roles

def requirement (kind : SignatureKind) (role : Text) (a : Account) : Except Error Requirement := do
  return ⟨a.address, (← a.defaultKey).index, kind, role, a⟩

/-- The requirements without those whose slot came before. -/
def distinct (requirements : List Requirement) : List Requirement :=
  (requirements.foldl (fun (acc : List Requirement) r =>
    if acc.any (·.slot = r.slot) then acc else r :: acc) []).reverse

/-- Who must sign what, in signing order: the payload by each authorizer and by the proposer, every slot
once, then the envelope by the payer. -/
def requirements (r : Roles) : Except Error (List Requirement) :=
  match r.proposer, r.payer with
  | some proposer, some payer => do
    let authorizers ← r.authorizers.mapM (requirement .payload "authorizer")
    let proposer ← requirement .payload "proposer" proposer
    let payer ← requirement .envelope "payer" payer
    return distinct (authorizers ++ [proposer]) ++ [payer]
  | _, _ => .error .signersUndetermined

end Roles

structure Envelope extends Transaction where
  roles : Option Roles

namespace Envelope

def signatures (e : Envelope) : SignatureKind → SignatureMap
  | .payload => e.payloadSignatures
  | .envelope => e.envelopeSignatures

def describe (r : Requirement) : Text :=
  .concat [r.role, " ", r.account.name, " key ", .ofInt r.keyIndex, " (", r.kind.name, ")"]

/-- Every required signature that is missing: by key while roles are attached, by address otherwise. -/
def missing (e : Envelope) : Except Error (List Text) :=
  match e.roles with
  | none => .ok e.missingSignatures
  | some roles => do
    let needed ← roles.requirements
    return (needed.filter fun r => !(e.signatures r.kind).contains (r.address, r.keyIndex)).map describe

/-- An envelope that may be submitted is prepared and lacks no signature. -/
def checkComplete (e : Envelope) : Except Error Unit := do
  if !e.isPrepared then .error .incompleteUnprepared
  match ← e.missing with
  | [] => .ok ()
  | missing => .error (.incomplete missing)

/-- The gas limit of an envelope that names none. -/
def defaultGasLimit : Int := 9999

def build (roles : Roles) (script : ScriptSource) (arguments : List Json) (gasLimit : Option Int)
    (requiredAuthorizers : Option Int) : Except Error Envelope := do
  match roles.proposer, roles.payer with
  | none, _ => .error .proposerRequired
  | some _, none => .error .payerRequired
  | some proposer, some payer =>
    match requiredAuthorizers with
    | some n => if n ≠ roles.authorizers.length then .error (.authorizerCount n roles.authorizers.length)
    | none => pure ()
    match gasLimit with
    | some gas => if gas ≤ 0 then .error (.gasLimit gas)
    | none => pure ()
    let script ← script.toBytes
    let _ ← arguments.mapM Argument.encode
    let key ← proposer.defaultKey
    return {
      script, arguments, gasLimit
      payer := payer.address
      authorizers := roles.authorizers.map (·.address)
      proposalKey := ⟨proposer.address, key.index, none⟩
      referenceBlock := none
      payloadSignatures := .empty
      envelopeSignatures := .empty
      roles := some roles }

end Envelope

end Signatory
