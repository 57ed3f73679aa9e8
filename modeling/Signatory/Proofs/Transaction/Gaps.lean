import Mathlib.Data.List.Nodup
import Signatory.Proofs.Bytes
import Signatory.Proofs.Ledger.Policy

/-! Which signatures are missing. By address, a transaction lacks those of its proposer, of its authorizers and of its
payer, and tells of each once and in that order. By key, roles may ask for several signatures of one account; who has
them all lacks none by address, so a ledger does not miss a signature in what passed the check of the client. -/

namespace Signatory
set_option autoImplicit false
open Outcome

/-- A signature that a transaction needs. -/
inductive Gap where
  | proposer (address : Bytes) (index : Int)
  | authorizer (address : Bytes)
  | payer (address : Bytes)

def Gap.message : Gap → Text
  | proposer address index => .concat ["proposer 0x", Bytes.hex address, " key ", .ofInt index, " (payload)"]
  | authorizer address => .concat ["authorizer 0x", Bytes.hex address, " (payload)"]
  | payer address => .concat ["payer 0x", Bytes.hex address, " (envelope)"]

theorem Gap.message_authorizer_injective : Function.Injective fun a => (Gap.authorizer a).message := by
  intro a b h
  refine Bytes.hex_injective ?_
  simpa [Gap.message, Text.concat] using h

namespace Transaction

/-- The transaction bears no signature that fills the gap. The proposer is not asked again as an authorizer. -/
inductive Lacks (t : Transaction) : Gap → Prop where
  | proposer : (t.proposalKey.address, t.proposalKey.keyIndex) ∉ t.payloadSignatures.keys →
      t.Lacks (.proposer t.proposalKey.address t.proposalKey.keyIndex)
  | authorizer {a : Bytes} : a ∈ t.authorizers → a ≠ t.proposalKey.address →
      (∀ index, (a, index) ∉ t.payloadSignatures.keys) → t.Lacks (.authorizer a)
  | payer : (∀ index, (t.payer, index) ∉ t.envelopeSignatures.keys) → t.Lacks (.payer t.payer)

/-- When it is the turn of a gap: the proposer comes first, then each authorizer where it first occurs, then the payer. -/
def turn (t : Transaction) : Gap → Nat
  | .proposer _ _ => 0
  | .authorizer a => 1 + t.authorizers.idxOf a
  | .payer _ => 1 + t.authorizers.length

/-- All gaps of a transaction, each once and in its turn. -/
structure Lists (t : Transaction) (gaps : List Gap) : Prop where
  complete : ∀ gap, gap ∈ gaps ↔ t.Lacks gap
  inTurn : gaps.Pairwise fun g h => t.turn g < t.turn h

/-- The gaps as they are found. -/
def gaps (t : Transaction) : List Gap :=
  let key := t.proposalKey
  (if t.payloadSignatures.contains (key.address, key.keyIndex) then [] else [.proposer key.address key.keyIndex]) ++
    (t.authorizers.eraseDups.filter fun a => !(signers t.payloadSignatures).contains a && a != key.address).map
      Gap.authorizer ++
    if (signers t.envelopeSignatures).contains t.payer then [] else [.payer t.payer]

theorem missingSignatures_eq_map (t : Transaction) : t.missingSignatures = t.gaps.map Gap.message := by
  simp only [missingSignatures, gaps, List.map_append, List.map_map, apply_ite (List.map Gap.message), List.map_cons,
    List.map_nil]
  rfl

theorem contains_signers_eq_false {m : SignatureMap} {address : Bytes} :
    (!(signers m).contains address) = true ↔ ∀ index, (address, index) ∉ m.keys := by
  rw [Bool.not_eq_true', ← Bool.not_eq_true, List.contains_iff_mem, mem_signers, not_exists]

theorem mem_gaps {t : Transaction} {gap : Gap} : gap ∈ t.gaps ↔ t.Lacks gap := by
  have hproposer : t.payloadSignatures.contains (t.proposalKey.address, t.proposalKey.keyIndex) = true ↔
      (t.proposalKey.address, t.proposalKey.keyIndex) ∈ t.payloadSignatures.keys := OrderedMap.contains_iff
  have hpayer : (signers t.envelopeSignatures).contains t.payer = true ↔
      ∃ index, (t.payer, index) ∈ t.envelopeSignatures.keys := by
    rw [List.contains_iff_mem, mem_signers]
  simp only [gaps, List.mem_append, List.mem_map, List.mem_filter, List.mem_eraseDups, Bool.and_eq_true,
    contains_signers_eq_false, bne_iff_ne, ne_eq, List.mem_ite_nil_left, List.mem_singleton, hproposer, hpayer]
  constructor
  · rintro ((⟨hunsigned, rfl⟩ | ⟨a, ⟨ha, hunsigned, hother⟩, rfl⟩) | ⟨hunsigned, rfl⟩)
    · exact .proposer hunsigned
    · exact .authorizer ha hother hunsigned
    · exact .payer (not_exists.mp hunsigned)
  · intro h
    cases h with
    | proposer hunsigned => exact .inl (.inl ⟨hunsigned, rfl⟩)
    | authorizer ha hother hunsigned => exact .inl (.inr ⟨_, ⟨ha, hunsigned, hother⟩, rfl⟩)
    | payer hunsigned => exact .inr ⟨not_exists.mpr hunsigned, rfl⟩

theorem gaps_inTurn (t : Transaction) : t.gaps.Pairwise fun g h => t.turn g < t.turn h := by
  have hauthorizers : ∀ gap ∈ (t.authorizers.eraseDups.filter fun a =>
      !(signers t.payloadSignatures).contains a && a != t.proposalKey.address).map Gap.authorizer,
      0 < t.turn gap ∧ t.turn gap < 1 + t.authorizers.length := by
    intro gap hgap
    obtain ⟨a, ha, rfl⟩ := List.mem_map.mp hgap
    have hmem := List.mem_eraseDups.mp (List.mem_filter.mp ha).1
    exact ⟨Nat.add_pos_left Nat.one_pos _, Nat.add_lt_add_left (List.idxOf_lt_length_iff.mpr hmem) 1⟩
  refine List.pairwise_append.mpr ⟨List.pairwise_append.mpr ⟨?_, ?_, ?_⟩, ?_, ?_⟩
  · split <;> simp
  · refine List.pairwise_map.mpr ((Lists.pairwise_idxOf_eraseDups t.authorizers).filter _ |>.imp fun h => ?_)
    exact Nat.add_lt_add_left h 1
  · intro g hg h hh
    obtain ⟨_, rfl⟩ := List.mem_ite_nil_left.mp hg |>.imp_right List.mem_singleton.mp
    exact (hauthorizers h hh).1
  · split <;> simp
  · intro g hg h hh
    obtain ⟨_, rfl⟩ := List.mem_ite_nil_left.mp hh |>.imp_right List.mem_singleton.mp
    rcases List.mem_append.mp hg with hg | hg
    · obtain ⟨_, rfl⟩ := List.mem_ite_nil_left.mp hg |>.imp_right List.mem_singleton.mp
      exact Nat.add_pos_left Nat.one_pos _
    · exact (hauthorizers g hg).2

/-- No two gaps of a transaction have the same text. -/
theorem nodup_messages (t : Transaction) : (t.gaps.map Gap.message).Nodup := by
  have hnodup : t.gaps.Nodup := by
    refine t.gaps_inTurn.imp ?_
    rintro g _ h rfl
    exact Nat.lt_irrefl _ h
  refine List.Nodup.map_on ?_ hnodup
  intro g hg h hh hmessage
  -- The second letter tells gaps of different kinds apart.
  have hletter : g.message[1]? = h.message[1]? := congrArg (·[1]?) hmessage
  cases mem_gaps.mp hg <;> cases mem_gaps.mp hh
  case proposer.proposer => rfl
  case authorizer.authorizer => exact congrArg _ (Gap.message_authorizer_injective hmessage)
  case payer.payer => rfl
  all_goals exact absurd (Option.some.inj hletter) (by decide)

theorem lists_gaps (t : Transaction) : t.Lists t.gaps := ⟨fun _ => mem_gaps, t.gaps_inTurn⟩

end Transaction

namespace Envelope

/-- What is built has the accounts of its roles in their places. -/
theorem staged_of_build {roles : Roles} {script : ScriptSource} {arguments : List Json}
    {gasLimit requiredAuthorizers : Option Int} {e : Envelope}
    (h : build roles script arguments gasLimit requiredAuthorizers = .ok e) :
    ∃ proposer payer, roles.proposer = some proposer ∧ roles.payer = some payer ∧ e.Staged roles proposer payer := by
  unfold build at h
  split at h
  · cases h
  · cases h
  · rename_i proposer payer hproposer hpayer
    have hrest : ∃ key, proposer.defaultKey = .ok key ∧ e.roles = some roles ∧ e.payer = payer.address ∧
        e.authorizers = roles.authorizers.map Account.address ∧ e.proposalKey = ⟨proposer.address, key.index, none⟩ := by
      cases requiredAuthorizers <;> cases gasLimit <;>
        simp only [check_eq_ok, bind_eq_ok, pure_eq_ok] at h <;> grind
    obtain ⟨key, hkey, hroles, hpays, hauthorizers, hproposal⟩ := hrest
    refine ⟨proposer, payer, hproposer, hpayer, hroles, hpays, hauthorizers, ?_⟩
    rw [hproposal]
    exact Account.slot?_of_defaultKey hkey

theorem missing_eq_nil {e : Envelope} {roles : Roles} (hattached : e.roles = some roles) (h : e.missing = .ok []) :
    ∃ needed, roles.requirements = .ok needed ∧ ∀ r ∈ needed, r.place ∈ (e.signatures r.kind).keys := by
  simp only [missing, hattached, bind_eq_ok, pure_eq_ok, List.map_eq_nil_iff, List.filter_eq_nil_iff,
    Bool.not_eq_true', Bool.not_eq_false, OrderedMap.contains_iff] at h
  exact h

/-- Whoever has given all signatures that the roles ask for, key by key, has given those that the addresses ask for. -/
theorem Staged.fullySigned {e : Envelope} {roles : Roles} {proposer payer : Account} (h : e.Staged roles proposer payer)
    (hproposer : roles.proposer = some proposer) (hpayer : roles.payer = some payer) (hmissing : e.missing = .ok []) :
    e.toTransaction.FullySigned := by
  obtain ⟨needed, hneeded, hsigned⟩ := missing_eq_nil h.attached hmissing
  obtain ⟨_, _, rs, last, hproposer', hpayer', hasked, hlast, rfl⟩ := Roles.requirements_eq_ok hneeded
  obtain rfl := Option.some.inj (hproposer.symm.trans hproposer')
  obtain rfl := Option.some.inj (hpayer.symm.trans hpayer')
  -- A requirement that came before with the same place stands for those that were dropped.
  have hpayload : ∀ a ∈ roles.authorizers ++ [proposer], ∃ place, a.slot? = some place ∧
      place ∈ e.payloadSignatures.keys := by
    intro a ha
    obtain ⟨r, hr, (hasks : roles.Asks .payload a r)⟩ := Lists.exists_of_mem_right hasked.flip ha
    obtain ⟨q, hq, hslot⟩ := Roles.exists_slot_distinct.mpr ⟨r, hr, rfl⟩
    have hkept := hsigned q (List.mem_append_left _ hq)
    simp only [Requirement.slot, Prod.mk.injEq] at hslot
    obtain ⟨haddress, hindex, hkind⟩ := hslot
    rw [Requirement.place, haddress, hindex, hkind, hasks.kind_eq] at hkept
    exact ⟨r.place, hasks.place, hkept⟩
  constructor
  · obtain ⟨place, hplace, hmem⟩ := hpayload proposer (List.mem_append_right _ (List.mem_singleton_self _))
    rwa [Option.some.inj (h.proposal.symm.trans hplace)]
  · intro a ha
    rw [h.authorizers] at ha
    obtain ⟨authorizer, hauthorizer, rfl⟩ := List.mem_map.mp ha
    obtain ⟨place, hplace, hmem⟩ := hpayload authorizer (List.mem_append_left _ hauthorizer)
    obtain ⟨key, _, rfl⟩ := Option.map_eq_some_iff.mp hplace
    exact ⟨key.index, hmem⟩
  · obtain ⟨key, _, hplace⟩ := Option.map_eq_some_iff.mp hlast.place
    have hkept := hsigned last (List.mem_append_right _ (List.mem_singleton_self _))
    rw [hlast.kind_eq, ← hplace] at hkept
    rw [h.payer]
    exact ⟨key.index, hkept⟩

theorem checkComplete_eq_ok {e : Envelope} (h : e.checkComplete = .ok ()) :
    e.isPrepared = true ∧ e.missing = .ok [] := by
  simp only [checkComplete, check_eq_ok, bind_eq_ok, Bool.not_eq_true', Bool.not_eq_false] at h
  obtain ⟨hprepared, missing, hmissing, h⟩ := h
  refine ⟨hprepared, ?_⟩
  cases missing with
  | nil => exact hmissing
  | cons _ _ => cases h

end Envelope

namespace Engine

variable {μ : Type} {E : Engine μ}

theorem checkSignatures_eq_error {l : Ledger} {message : Bytes} {es : List ((Bytes × Int) × Bytes)} {r : Rejection}
    (h : E.checkSignatures l message es = .error r) :
    ∃ address index, r = .unknownSigner address index ∨ r = .badSignature address index := by
  induction es with
  | nil => cases h
  | cons e es ih =>
    rw [checkSignatures, bind_eq_error] at h
    rcases h with h | ⟨_, _, h⟩
    · unfold checkSignature at h
      split at h
      · exact ⟨_, _, .inl (Except.error.inj h).symm⟩
      · split at h
        · cases h
        · exact ⟨_, _, .inr (Except.error.inj h).symm⟩
    · exact ih h

theorem checkProposal_eq_error {l : Ledger} {address : Bytes} {index sequence : Int} {r : Rejection}
    (h : checkProposal l address index sequence = .error r) :
    r = .noAccount address ∨ r = .noProposalKey address index ∨
      ∃ expected, r = .sequence address index sequence expected := by
  rw [checkProposal, bind_eq_error] at h
  rcases h with h | ⟨account, _, h⟩
  · unfold Ledger.account at h
    cases hfind : l.accounts.find? address with
    | none =>
      rw [hfind] at h
      exact .inl (Except.error.inj h).symm
    | some account =>
      rw [hfind] at h
      cases h
  · split at h
    · exact .inr (.inl (Except.error.inj h).symm)
    · split at h
      · cases h
      · exact .inr (.inr ⟨_, (Except.error.inj h).symm⟩)

/-- A transaction that bears all signatures may be refused for many reasons, but not for missing ones. -/
theorem validate_ne_missingSignatures {l : Ledger} {t : Transaction} {id : Bytes} (ht : t.Ready)
    (hsigned : t.FullySigned) (texts : List Text) :
    E.validate l t id ≠ .error (.rejected (.missingSignatures texts)) := by
  intro h
  obtain ⟨v, _, hitem⟩ := ht.exists_payloadItem
  obtain ⟨⟨reference, gas, sequence⟩, hnetwork⟩ := Option.isSome_iff_exists.mp ht.prepared
  unfold validate at h
  simp only [hnetwork, check_eq_error, Transaction.missingSignatures_eq_nil.mpr hsigned, List.isEmpty_nil,
    Transaction.payloadMessage_eq hitem, Transaction.envelopeMessage_eq hitem, bind_eq_error, reject_eq_error,
    Error.rejected.injEq, reduceCtorEq, exists_eq_right', and_false, false_or] at h
  obtain ⟨_, _, _, ⟨hmissing, _⟩ | ⟨_, _, _, h⟩⟩ := h
  · cases hmissing
  rcases h with hpayload | ⟨_, _, _, _, henvelope | ⟨_, _, hproposal⟩⟩
  · obtain ⟨_, _, h | h⟩ := checkSignatures_eq_error hpayload <;> cases h
  · obtain ⟨_, _, h | h⟩ := checkSignatures_eq_error henvelope <;> cases h
  · obtain h | h | ⟨_, h⟩ := checkProposal_eq_error hproposal <;> cases h

end Engine

namespace Envelope

open Signable (overlapping overlappingRoles)

/-- The overlapping roles as they come out of building: nobody has signed. -/
def unsignedOverlap : Envelope := { overlapping with
  proposalKey := ⟨[1], 0, none⟩
  gasLimit := none
  referenceBlock := none
  payloadSignatures := .empty }

/-- Every signer once, although one of them proposes as well and another one authorizes twice. -/
def signedOverlap : Envelope := { overlapping with
  payloadSignatures := .ofList [(([3], 0), [3]), (([1], 0), [1])]
  envelopeSignatures := .ofList [(([2], 0), [2])] }

end Envelope

end Signatory
