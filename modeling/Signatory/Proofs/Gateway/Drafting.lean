import Signatory.Draft
import Signatory.Proofs.Gateway.Run
import Signatory.Proofs.Transaction.Signing

/-! Drafts are prepared and then signed. What a run leaves of a paper, wherever it stops: its signatures are of the
network fields that it has then, unless it was signed before and nobody is left to sign it anew. -/

namespace Signatory
set_option autoImplicit false
open Outcome

/-- Preparing is apart from signing: it keeps the roles, and neither adds nor removes a signature. -/
class Sendable.Lawful (ε : Type) [Sendable ε] : Prop where
  roles_prepared : ∀ (reference : Bytes) (gas sequence : Int) (e : ε),
    Signable.roles (Sendable.prepared reference gas sequence e) = Signable.roles e
  unsigned_prepared : ∀ (reference : Bytes) (gas sequence : Int) (e : ε),
    Signable.unsigned (Sendable.prepared reference gas sequence e) = Sendable.prepared reference gas sequence e ↔
      Signable.unsigned e = e

instance : Sendable.Lawful Envelope where
  roles_prepared _ _ _ _ := rfl
  unsigned_prepared reference gas sequence e := by
    obtain ⟨⟨⟩, roles⟩ := e
    simp [Signable.unsigned, Sendable.prepared]

instance : Sendable.Lawful LooseEnvelope where
  roles_prepared _ _ _ _ := rfl
  unsigned_prepared reference gas sequence e := by
    obtain ⟨⟨⟩, roles⟩ := e
    simp [Signable.unsigned, Sendable.prepared]

namespace Draft

variable {ε β : Type}

theorem call_of_ok {α : Type} {f : Action (Client β) α} {d : Draft ε β} {client : Client β} {a : α}
    (h : f d.client = (.ok a, client)) : call f d = (.ok a, { d with client }) := by
  unfold call
  rw [h]

theorem call_of_error {α : Type} {f : Action (Client β) α} {d : Draft ε β} {client : Client β} {e : Error}
    (h : f d.client = (.error e, client)) : call f d = (.error e, { d with client }) := by
  unfold call
  rw [h]

section Signing

variable [Signable ε] {d : Draft ε β}

theorem sign_of_detached (h : Signable.roles d.paper = none) : sign none d = (.error .rolesRequired, d) := by
  have hsign : Signable.sign d.paper none = (.error .rolesRequired, d.paper) := by
    unfold Signable.sign
    rw [h]
    rfl
  unfold sign
  simp only [hsign]
  rfl

/-- Where there are roles, signing ends with a signed paper, or with one that has no signature. -/
theorem sign_of_attached [Signable.Lawful ε] {roles : Roles} (h : Signable.roles d.paper = some roles) :
    (∃ proposer payer m payload envelope, Signable.Signed d.paper roles proposer payer m payload envelope ∧
      sign none d = (.ok (), ⟨Signable.replace d.paper m, d.client⟩)) ∨
    ∃ error client, client.backend = d.client.backend ∧
      sign none d = (.error error, ⟨Signable.replace d.paper fun _ => .empty, client⟩) := by
  have hgiven : (none <|> Signable.roles d.paper) = some roles := h
  unfold sign Signable.sign
  rw [hgiven]
  cases hsigned : Signable.signed d.paper roles with
  | error error =>
    refine .inr ⟨error, (failureLine? error).elim d.client fun line => d.client.log .error line, ?_, ?_⟩
    · cases failureLine? error <;> rfl
    · simp only [hsigned, Signable.Lawful.unsigned_eq]
  | ok paper =>
    obtain ⟨proposer, payer, m, payload, envelope, rfl, hspec⟩ := Signable.signed_eq_ok hsigned
    refine .inl ⟨proposer, payer, m, payload, envelope, hspec, ?_⟩
    simp only [hsigned]
    rfl

end Signing

section Preparing

variable [Sendable ε] {G : Gateway β} {d : Draft ε β} {key : KeyRecord} {block : Block} {left : Client β}

/-- What a gateway tells when a draft is prepared: the proposer's key, which is not revoked, and the latest block. -/
def Learns (G : Gateway β) (d : Draft ε β) (key : KeyRecord) (block : Block) (left : Client β) : Prop :=
  ∃ account between, Sendable.proposer G d.paper d.client = (.ok account, between) ∧
    account.key? (Sendable.keyIndex d.paper) = some key ∧ key.revoked = false ∧
    G.latestBlock between = (.ok block, left)

theorem prepare_of_learns (h : Learns G d key block left) (gas : Int) :
    prepare G gas d = (.ok (), ⟨Sendable.prepared block.id gas key.sequenceNumber d.paper, left⟩) := by
  obtain ⟨account, between, haccount, hkey, hrevoked, hblock⟩ := h
  have hget : (get : Action (Draft ε β) _) d = (.ok d, d) := rfl
  have hfilter : (account.key? (Sendable.keyIndex d.paper)).filter (!·.revoked) = some key := by
    rw [hkey, Option.filter_some, hrevoked]
    rfl
  unfold prepare
  rw [Action.bind_of_ok hget, Action.bind_of_ok (call_of_ok haccount)]
  simp only [hfilter]
  rw [Action.bind_of_ok (call_of_ok hblock)]
  rfl

/-- How a client may be left when preparing fails: it has asked for the proposer, and for the latest block if there is
such an account. -/
def Stopped (G : Gateway β) (d : Draft ε β) (left : Client β) : Prop :=
  left = (Sendable.proposer G d.paper d.client).2 ∨
    ∃ account between, Sendable.proposer G d.paper d.client = (.ok account, between) ∧ left = (G.latestBlock between).2

/-- A draft is prepared from what the gateway tells, or its paper stays as it is. -/
theorem prepare_cases (G : Gateway β) (d : Draft ε β) (gas : Int) :
    (∃ error left, prepare G gas d = (.error error, ⟨d.paper, left⟩) ∧ Stopped G d left) ∨
      ∃ key block left, Learns G d key block left := by
  have hget : (get : Action (Draft ε β) _) d = (.ok d, d) := rfl
  unfold prepare Stopped
  rw [Action.bind_of_ok hget]
  rcases haccount : Sendable.proposer G d.paper d.client with ⟨error | account, between⟩
  · exact .inl ⟨error, between, Action.bind_of_error (call_of_error haccount), .inl rfl⟩
  · rw [Action.bind_of_ok (call_of_ok haccount)]
    cases hkey : (account.key? (Sendable.keyIndex d.paper)).filter (!·.revoked) with
    | none =>
      cases hname : Sendable.proposerName d.paper with
      | error error => exact .inl ⟨error, between, rfl, .inl rfl⟩
      | ok name => exact .inl ⟨_, between, rfl, .inl rfl⟩
    | some key =>
      rcases hblock : G.latestBlock between with ⟨error | block, left⟩
      · exact .inl ⟨error, left, Action.bind_of_error (call_of_error hblock), .inr ⟨account, between, rfl, by rw [hblock]⟩⟩
      · rw [Option.filter_eq_some_iff, Bool.not_eq_true'] at hkey
        exact .inr ⟨key, block, left, account, between, haccount, hkey.1, hkey.2, hblock⟩

/-- What is learnt does not depend on who asks. -/
theorem Learns.prepared_eq {key' : KeyRecord} {block' : Block} {left' : Client β} (h : Learns G d key block left)
    (h' : Learns G d key' block' left') (gas : Int) : Sendable.prepared block'.id gas key'.sequenceNumber d.paper =
      Sendable.prepared block.id gas key.sequenceNumber d.paper := by
  have hsame := (prepare_of_learns h' gas).symm.trans (prepare_of_learns h gas)
  exact congrArg (fun r => r.2.paper) hsame

theorem run_of_learns (h : Learns G d key block left) (gas : Int) :
    run G gas d = sign none ⟨Sendable.prepared block.id gas key.sequenceNumber d.paper, left⟩ := by
  unfold run
  rw [Action.bind_of_ok (prepare_of_learns h gas)]

/-- A paper that was signed, has lost its roles, and would be changed by what is learnt now. -/
structure Outdated (G : Gateway β) (gas : Int) (d : Draft ε β) (key : KeyRecord) (block : Block) (left : Client β) :
    Prop where
  learns : Learns G d key block left
  detached : Signable.roles d.paper = none
  signed : Signable.unsigned d.paper ≠ d.paper
  changed : Sendable.prepared block.id gas key.sequenceNumber d.paper ≠ d.paper

theorem Outdated.run_eq [Sendable.Lawful ε] {gas : Int} (h : Outdated G gas d key block left) :
    run G gas d = (.error .rolesRequired, ⟨Sendable.prepared block.id gas key.sequenceNumber d.paper, left⟩) := by
  rw [run_of_learns h.learns]
  exact sign_of_detached (by rw [Sendable.Lawful.roles_prepared, h.detached])

end Preparing

variable [Sendable ε] [Signable.Lawful ε] {G : Gateway β} {gas : Int} {d : Draft ε β}

/-- What a run leaves of a paper: what it was before, or the prepared paper without signatures, or the prepared paper
with the signatures of its roles, all of them over the messages that it has then. -/
inductive Unmixed (G : Gateway β) (gas : Int) (d : Draft ε β) : Except Error Unit → ε → Prop where
  | untouched {error : Error} : Unmixed G gas d (.error error) d.paper
  | cleared {error : Error} {key : KeyRecord} {block : Block} {left : Client β} : Learns G d key block left →
      Unmixed G gas d (.error error)
        (Signable.replace (Sendable.prepared block.id gas key.sequenceNumber d.paper) fun _ => .empty)
  | signed {key : KeyRecord} {block : Block} {left : Client β} {roles : Roles} {proposer payer : Account}
      {m : SignatureKind → SignatureMap} {payload envelope : Bytes} :
      Learns G d key block left → Signable.roles d.paper = some roles →
      Signable.Signed (Sendable.prepared block.id gas key.sequenceNumber d.paper) roles proposer payer m payload envelope →
      Unmixed G gas d (.ok ()) (Signable.replace (Sendable.prepared block.id gas key.sequenceNumber d.paper) m)

variable [Sendable.Lawful ε] {key : KeyRecord} {block : Block} {left : Client β}

theorem Outdated.not_unmixed (h : Outdated G gas d key block left) {error : Error} :
    ¬Unmixed G gas d (.error error) (Sendable.prepared block.id gas key.sequenceNumber d.paper) := by
  generalize hpaper : Sendable.prepared block.id gas key.sequenceNumber d.paper = paper
  intro hunmixed
  cases hunmixed with
  | untouched => exact h.changed hpaper
  | cleared hlearns =>
    rw [h.learns.prepared_eq hlearns, ← Signable.Lawful.unsigned_eq] at hpaper
    exact h.signed ((Sendable.Lawful.unsigned_prepared _ _ _ _).mp hpaper.symm)

/-- An envelope of the service account, prepared for a ledger on which that had the sequence number 7. -/
def former : Envelope := { Signable.overlapping with proposalKey := ⟨Engine.serviceAddress, 0, some 7⟩ }

/-- The same envelope, signed then, and without its roles. -/
def bereft : Envelope := { (Signable.sign former none).2 with roles := none }

def presentClient : Client (Embedded.State Unit) := .start (Embedded.trustingStart Runtime.null ())

theorem bereft_outdated : Outdated (Embedded.trusting Runtime.null).gateway 9999 ⟨bereft, presentClient⟩
    ⟨0, Embedded.nobodysKey.publicKey, .ecdsaP256, .sha3_256, 1000, 0, false⟩
    (Embedded.firstBlock Runtime.null).toBlock presentClient where
  learns := ⟨_, presentClient, rfl, rfl, rfl, rfl⟩
  detached := rfl
  signed h := by
    have hkeys := congrArg (fun e : Envelope => e.payloadSignatures.keys) h
    revert hkeys
    decide +kernel
  changed h := by
    have hsequence := congrArg (fun e : Envelope => e.proposalKey.sequenceNumber) h
    revert hsequence
    decide +kernel

end Draft

end Signatory
