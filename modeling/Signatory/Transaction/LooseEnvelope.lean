import Signatory.Transaction.Envelope
import Signatory.Transaction.Loose

/-! Envelopes around transactions whose fields may be any items. -/

namespace Signatory
set_option autoImplicit false

structure LooseEnvelope extends LooseTransaction where
  roles : Option Roles

/-- The same envelope, its fields taken for items. -/
def Envelope.loosen (e : Envelope) : LooseEnvelope := { e.toTransaction.loosen with roles := e.roles }

namespace LooseEnvelope

/-- The envelope, when every field is of the kind that senders write. -/
def regular? (e : LooseEnvelope) : Option Envelope :=
  e.toLooseTransaction.regular?.map fun t => { t with roles := e.roles }

def signatures (e : LooseEnvelope) : SignatureKind → LooseSignatures
  | .payload => e.payloadSignatures
  | .envelope => e.envelopeSignatures

def meets (e : LooseEnvelope) (r : Requirement) : Bool :=
  (Entries.find? (Cbor.Value.bytes r.address, r.keyIndex) (e.signatures r.kind)).isSome

/-- Every required signature that is missing: by key while roles are attached, by address otherwise. -/
def missing (e : LooseEnvelope) : Except Error (List Text) :=
  match e.roles with
  | none => e.missingSignatures
  | some roles => do return ((← roles.requirements).filter (!e.meets ·)).map Envelope.describe

/-- An envelope that may be submitted is prepared and lacks no signature. -/
def checkComplete (e : LooseEnvelope) : Except Error Unit := do
  if !e.isPrepared then .error .incompleteUnprepared
  match ← e.missing with
  | [] => .ok ()
  | missing => .error (.incomplete missing)

end LooseEnvelope

end Signatory
