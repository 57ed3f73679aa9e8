import Signatory.Transaction.LooseEnvelope

/-! Signing: all who must sign do so one after another, the payload first and the payer last. Signatures that
were there before are discarded. -/

namespace Signatory
set_option autoImplicit false

/-- What can be signed: a paper with room for signatures, and the message that each kind of them covers. -/
class Signable (ε : Type) where
  /-- The roles that the paper was built from, while they are attached. -/
  roles : ε → Option Roles
  unsigned : ε → ε
  message : ε → SignatureKind → Except Error Bytes
  /-- The paper with a signature stored under an address and a key index. -/
  store : ε → SignatureKind → Bytes × Int → Bytes → ε

instance : Signable Envelope where
  roles e := e.roles
  unsigned e := { e with payloadSignatures := .empty, envelopeSignatures := .empty }
  message e
    | .payload => e.payloadMessage
    | .envelope => e.envelopeMessage
  store e kind key signature :=
    match kind with
    | .payload => { e with payloadSignatures := e.payloadSignatures.insert key signature }
    | .envelope => { e with envelopeSignatures := e.envelopeSignatures.insert key signature }

instance : Signable LooseEnvelope where
  roles e := e.roles
  unsigned e := { e with payloadSignatures := [], envelopeSignatures := [] }
  message e
    | .payload => e.payloadMessage
    | .envelope => e.envelopeMessage
  store e kind key signature :=
    let key : Cbor.Value × Int := (.bytes key.1, key.2)
    match kind with
    | .payload => { e with payloadSignatures := Entries.insert key (.bytes signature) e.payloadSignatures }
    | .envelope => { e with envelopeSignatures := Entries.insert key (.bytes signature) e.envelopeSignatures }

namespace Signable

variable {ε : Type} [Signable ε]

/-- The paper with the signature that a requirement asks for. -/
def addSignature (e : ε) (r : Requirement) : Except Error ε := do
  let message ← message e r.kind
  let key ← r.account.defaultKey
  match key.signer.sign message with
  | .ok signature => return store e r.kind (r.address, r.keyIndex) signature
  | .error reason => .error (.signerFailed r.role r.account.name r.keyIndex reason)

/-- All signatures of the given roles, made one after another. -/
def signed (e : ε) (roles : Roles) : Except Error ε := do (← roles.requirements).foldlM addSignature (unsigned e)

/-- Signs for the given roles, or else for those that are attached. Where signing fails, no signature is left. -/
def sign (e : ε) (given : Option Roles) : Except Error Unit × ε :=
  match given <|> roles e with
  | none => (.error .rolesRequired, e)
  | some given =>
    match signed e given with
    | .ok e => (.ok (), e)
    | .error error => (.error error, unsigned e)

end Signable

end Signatory
