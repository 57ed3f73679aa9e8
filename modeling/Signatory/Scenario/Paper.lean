import Signatory.Draft
import Signatory.Wire.Transaction

/-! What a slot for envelopes holds. Fields of the kinds that senders write make an envelope; any others are kept as
they are. -/

namespace Signatory.Scenario
set_option autoImplicit false

inductive Paper where
  | envelope (e : Envelope)
  | loose (e : LooseEnvelope)

namespace Paper

def ofLoose (e : LooseEnvelope) : Paper := e.regular?.elim (loose e) envelope

def ofTransaction (t : LooseTransaction) : Paper := ofLoose { t with roles := none }

def loosen : Paper → LooseEnvelope
  | envelope e => e.loosen
  | loose e => e

/-- The paper with every copy of one account in its roles changed. -/
def updateRoles (ref : Nat) (f : Account → Account) : Paper → Paper
  | envelope e => envelope { e with roles := e.roles.map (·.update ref f) }
  | loose e => loose { e with roles := e.roles.map (·.update ref f) }

def isPrepared : Paper → Bool
  | envelope e => e.isPrepared
  | loose e => e.isPrepared

def message (kind : SignatureKind) : Paper → Except Error Bytes
  | envelope e => Signable.message e kind
  | loose e => Signable.message e kind

def id (suite : CryptoSuite) : Paper → Except Error Bytes
  | envelope e => e.id suite
  | loose e => e.id suite

def missing : Paper → Except Error (List Text)
  | envelope e => e.missing
  | loose e => e.missing

def checkComplete : Paper → Except Error Unit
  | envelope e => e.checkComplete
  | loose e => e.checkComplete

def toWire : Paper → Except Error Cbor.Value
  | envelope e => e.toWire
  | loose e => e.toWire

def alike : Paper → Paper → Bool
  | envelope e, envelope f => e.alike f.toTransaction
  | p, q => p.loosen.alike q.loosen.toLooseTransaction

def drafted {α β : Type} (f : {ε : Type} → [Sendable ε] → Action (Draft ε β) α) :
    Paper → Client β → Except Error α × Paper × Client β
  | envelope e, c =>
    let (result, draft) := (f ⟨e, c⟩ : Except Error α × Draft Envelope β)
    (result, envelope draft.paper, draft.client)
  | loose e, c =>
    let (result, draft) := (f ⟨e, c⟩ : Except Error α × Draft LooseEnvelope β)
    (result, ofLoose draft.paper, draft.client)

end Paper

end Signatory.Scenario
