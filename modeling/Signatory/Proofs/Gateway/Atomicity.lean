import Signatory.Proofs.Gateway.Run
import Signatory.Proofs.Ledger.WellBehaved

/-! Failed submissions. What is refused, and what crashes the runtime, leaves the ledger as it was. A run that ended but
cannot be sealed leaves its traces; these are all the failures that do. -/

namespace Signatory
set_option autoImplicit false

variable {μ : Type}

namespace Engine

variable (E : Engine μ)

/-- A run that ended cannot be sealed: there is no time for the block, the account of the proposer is gone, or no event
can be made of something that was emitted. -/
inductive Torn (s : State μ) (x : Admission) : Prop where
  | failedWithoutTime {reason : Text} {accounts : Accounts} {memory : μ} {error : Error} :
      E.runtime.execute x.transaction s.ledger s.memory = (.failed reason, accounts, memory) →
      E.clock s.readings = .error error → Torn s x
  | doneWithoutTime {emitted : List Json} {accounts : Accounts} {memory : μ} {error : Error} :
      E.runtime.execute x.transaction s.ledger s.memory = (.done emitted, accounts, memory) →
      E.clock s.readings = .error error → Torn s x
  | proposerGone {emitted : List Json} {accounts : Accounts} {memory : μ} :
      E.runtime.execute x.transaction s.ledger s.memory = (.done emitted, accounts, memory) →
      x.proposer ∉ accounts.keys → Torn s x
  | noEvent {emitted : List Json} {accounts : Accounts} {memory : μ} {v : Json} :
      E.runtime.execute x.transaction s.ledger s.memory = (.done emitted, accounts, memory) →
      v ∈ emitted → ¬Emitted v → Torn s x

variable {E}

/-- Sealing that fails leaves another ledger than the one before the run. -/
theorem Sealing.ledger_ne {l : Ledger} {left : Accounts} {s s' : State μ} {x : Admission} {emitted : List Json}
    {message : Text} {error : Error} (h : Sealing E s x emitted message (.error error) s')
    (hs : s.ledger = { l with accounts := left }) (htouched : l.accounts.Touched left) (hfits : x.Fits l) :
    s'.ledger ≠ l := by
  obtain ⟨n, hn, _⟩ := hfits.sequence
  have haccounts : s.ledger.accounts = left := congrArg Ledger.accounts hs
  intro hsame
  cases h with
  | noKey hbump =>
    have hnone := bump_eq_error hbump
    rw [hsame, hn] at hnone
    cases hnone
  | @noTime accounts _ hbump _ =>
    have hafter : accounts = l.accounts := congrArg Ledger.accounts hsame
    rw [haccounts] at hbump
    have hbefore := sequence?_touched_bump htouched hbump (hafter ▸ hn)
    rw [if_pos ⟨rfl, rfl⟩, hn] at hbefore
    have := Option.some.inj hbefore
    omega
  | noEvents _ _ _ =>
    have hblocks := congrArg (fun l => l.blocks.length) hsame
    simp [congrArg Ledger.blocks hs] at hblocks

theorem Sealing.atomic_iff {l : Ledger} {left : Accounts} {s s' : State μ} {x : Admission} {emitted : List Json}
    {message : Text} {answer : Except Error Bytes} (h : Sealing E s x emitted message answer s')
    (hs : s.ledger = { l with accounts := left }) (htouched : l.accounts.Touched left) (hfits : x.Fits l) :
    (∀ error, answer = .error error → s'.ledger = l) ↔ ¬∃ error, answer = .error error := by
  constructor
  · rintro hall ⟨error, rfl⟩
    exact h.ledger_ne hs htouched hfits (hall error rfl)
  · intro hnone error herror
    exact absurd ⟨error, herror⟩ hnone

theorem Sealing.error_iff {s s' : State μ} {x : Admission} {emitted : List Json} {message : Text}
    {answer : Except Error Bytes} (h : Sealing E s x emitted message answer s') :
    (∃ error, answer = .error error) ↔
      s.ledger.accounts.sequence? x.proposer x.transaction.keyIndex = none ∨
      (∃ error, E.clock s.readings = .error error) ∨ ∃ v ∈ emitted, ¬Emitted v := by
  cases h with
  | @noKey error hbump => exact ⟨fun _ => .inl (bump_eq_error hbump), fun _ => ⟨error, rfl⟩⟩
  | @noTime _ error _ hclock => exact ⟨fun _ => .inr (.inl ⟨error, hclock⟩), fun _ => ⟨error, rfl⟩⟩
  | @noEvents _ _ error _ _ hevents =>
    exact ⟨fun _ => .inr (.inr (StoredEvent.exists_not_emitted hevents)), fun _ => ⟨error, rfl⟩⟩
  | @done _ _ events hbump hclock hevents =>
    refine ⟨fun ⟨_, h⟩ => (nomatch h), ?_⟩
    rintro (hnone | ⟨error, herror⟩ | ⟨v, hv, hnot⟩)
    · exact absurd hnone (sequence?_ne_none_of_bump hbump)
    · rw [hclock] at herror
      cases herror
    · exact absurd ((StoredEvent.ofEmitted_eq_ok_iff x.id 0).mp ⟨events, hevents⟩ v hv) hnot

theorem torn_iff_of_failed {s : State μ} {x : Admission} {reason : Text} {accounts : Accounts} {memory : μ}
    (h : E.runtime.execute x.transaction s.ledger s.memory = (.failed reason, accounts, memory)) :
    E.Torn s x ↔ ∃ error, E.clock s.readings = .error error := by
  constructor
  · rintro (⟨_, hclock⟩ | ⟨hdone, _⟩ | ⟨hdone, _⟩ | ⟨hdone, _, _⟩)
    · exact ⟨_, hclock⟩
    all_goals
      rw [h] at hdone
      cases hdone
  · rintro ⟨error, hclock⟩
    exact .failedWithoutTime h hclock

theorem torn_iff_of_done {s : State μ} {x : Admission} {emitted : List Json} {accounts : Accounts} {memory : μ}
    (h : E.runtime.execute x.transaction s.ledger s.memory = (.done emitted, accounts, memory)) :
    E.Torn s x ↔ x.proposer ∉ accounts.keys ∨ (∃ error, E.clock s.readings = .error error) ∨
      ∃ v ∈ emitted, ¬Emitted v := by
  constructor
  · rintro (⟨hfailed, _⟩ | ⟨_, hclock⟩ | ⟨hdone, hgone⟩ | ⟨hdone, hv, hnot⟩)
    · rw [h] at hfailed
      cases hfailed
    · exact .inr (.inl ⟨_, hclock⟩)
    · rw [h] at hdone
      cases hdone
      exact .inl hgone
    · rw [h] at hdone
      cases hdone
      exact .inr (.inr ⟨_, hv, hnot⟩)
  · rintro (hgone | ⟨error, hclock⟩ | ⟨v, hv, hnot⟩)
    · exact .proposerGone h hgone
    · exact .doneWithoutTime h hclock
    · exact .noEvent h hv hnot

theorem attempt_atomic_iff (hR : E.runtime.TouchesAccounts) (s : State μ) {admission : Except Error Admission}
    (hfits : ∀ x, admission = .ok x → x.Fits s.ledger) :
    (∀ error, (E.attempt s admission).1 = .error error → (E.attempt s admission).2.ledger = s.ledger) ↔
      ∀ x, admission = .ok x → ¬E.Torn s x := by
  cases admission with
  | error error => exact ⟨fun _ _ h => (nomatch h), fun _ _ _ => rfl⟩
  | ok x =>
    have hfit := hfits x rfl
    obtain ⟨n, hn, _⟩ := hfit.sequence
    simp only [Except.ok.injEq, forall_eq']
    have hrunning := attempt_running E s x
    generalize E.attempt s (.ok x) = result at hrunning ⊢
    obtain ⟨answer, s'⟩ := result
    simp only at hrunning ⊢
    cases hrunning with
    | crashed hexecute =>
      refine ⟨fun _ => ?_, fun _ _ _ => rfl⟩
      rintro (⟨h, _⟩ | ⟨h, _⟩ | ⟨h, _⟩ | ⟨h, _, _⟩) <;>
        · rw [hexecute] at h
          cases h
    | failed hexecute hsealing =>
      rw [hsealing.atomic_iff rfl s.ledger.accounts.touched_refl hfit, hsealing.error_iff, torn_iff_of_failed hexecute]
      simp [hn]
    | @done _ left _ _ _ hexecute hsealing =>
      have htouched := hR _ _ _ _ _ _ hexecute
      have hgone : left.sequence? x.proposer x.transaction.keyIndex = none ↔ x.proposer ∉ left.keys := by
        constructor
        · intro hnone hkept
          rw [htouched.sequence?_eq hkept, hn] at hnone
          cases hnone
        · exact fun h => Accounts.sequence?_eq_none h _
      rw [hsealing.atomic_iff rfl htouched hfit, hsealing.error_iff, torn_iff_of_done hexecute, hgone]

end Engine

namespace Embedded

variable {G : Embedded μ}

/-- A submission that fails leaves the ledger as it was, unless the runtime ended without a crash and then the clock gave
no time, the account of the proposer was gone, or something emitted was no map with a type. These leave a trace. -/
theorem submission_atomic_iff (hR : G.engine.runtime.TouchesAccounts) (c : Client (State μ)) :
    (∀ e : Envelope,
      (∀ error, (G.submit e c).1 = .error error → (G.submit e c).2.backend.ledger = c.backend.ledger) ↔
        ∀ x, G.admission e c.backend.ledger = .ok x → ¬G.engine.Torn c.backend.engine x) ∧
    ∀ e : LooseEnvelope,
      (∀ error, (G.submitLoose e c).1 = .error error → (G.submitLoose e c).2.backend.ledger = c.backend.ledger) ↔
        ∀ x, G.admissionLoose e c.backend.ledger = .ok x → ¬G.engine.Torn c.backend.engine x := by
  constructor
  · intro e
    obtain ⟨hanswer, hbackend⟩ := G.submit_eq_attempt e c
    rw [hanswer, hbackend]
    exact Engine.attempt_atomic_iff hR c.backend.engine fun _ hx => (admission_admitted hx).fits
  · intro e
    obtain ⟨hanswer, hbackend⟩ := G.submitLoose_eq_attempt e c
    rw [hanswer, hbackend]
    exact Engine.attempt_atomic_iff hR c.backend.engine fun _ hx => (admissionLoose_admitted hx).fits

/-- A runtime that changes nothing and emits a map without a type. -/
def untyped : Runtime Unit where
  execute _ l m := (.done [.object []], l.accounts, m)
  evaluate _ _ l m := (.done Runtime.void, l, m)

theorem untyped_touchesAccounts : untyped.TouchesAccounts := by
  intro t l m emitted accounts m' h
  obtain ⟨_, rfl, _⟩ : [.object []] = emitted ∧ l.accounts = accounts ∧ m = m' := by simpa [untyped] using h
  exact l.accounts.touched_refl

def untypedClient : Client (State Unit) := .start (trustingStart untyped ())

theorem untyped_fails :
    ∃ error, ((trusting untyped).submit (serviceEnvelope untyped 0) untypedClient).1 = .error error := by
  have hfails : ((trusting untyped).submit (serviceEnvelope untyped 0) untypedClient).1.isOk = false := by
    decide +kernel
  cases hanswer : ((trusting untyped).submit (serviceEnvelope untyped 0) untypedClient).1 with
  | ok id => simp [hanswer, Except.isOk, Except.toBool] at hfails
  | error error => exact ⟨error, rfl⟩

theorem submission_atomic_iff_untyped : untyped.TouchesAccounts ∧
    ∃ x, (trusting untyped).admission (serviceEnvelope untyped 0) untypedClient.backend.ledger = .ok x ∧
      (trusting untyped).engine.Torn untypedClient.backend.engine x := by
  refine ⟨untyped_touchesAccounts, ?_⟩
  have hatomic := (submission_atomic_iff (G := trusting untyped) untyped_touchesAccounts untypedClient).1
    (serviceEnvelope untyped 0)
  have hblocks : ((trusting untyped).submit (serviceEnvelope untyped 0) untypedClient).2.backend.ledger.blocks.length ≠
      untypedClient.backend.ledger.blocks.length := by decide +kernel
  obtain ⟨error, hanswer⟩ := untyped_fails
  by_contra hnone
  push Not at hnone
  exact hblocks (congrArg (fun l => l.blocks.length) (hatomic.mpr hnone error hanswer))

/-- A submission fails after its sequence number is used up and its block added. -/
theorem submission_not_atomic : untyped.TouchesAccounts ∧
    (∃ error, ((trusting untyped).submit (serviceEnvelope untyped 0) untypedClient).1 = .error error) ∧
    ((trusting untyped).submit (serviceEnvelope untyped 0) untypedClient).2.backend.ledger.accounts.sequence?
      Engine.serviceAddress 0 = some 1 ∧
    untypedClient.backend.ledger.accounts.sequence? Engine.serviceAddress 0 = some 0 ∧
    ((trusting untyped).submit (serviceEnvelope untyped 0) untypedClient).2.backend.ledger ≠
      untypedClient.backend.ledger := by
  have hafter : ((trusting untyped).submit (serviceEnvelope untyped 0) untypedClient).2.backend.ledger.accounts.sequence?
      Engine.serviceAddress 0 = some 1 := by decide +kernel
  have hbefore : untypedClient.backend.ledger.accounts.sequence? Engine.serviceAddress 0 = some 0 := by decide +kernel
  refine ⟨untyped_touchesAccounts, untyped_fails, hafter, hbefore, fun hsame => ?_⟩
  rw [hsame, hbefore] at hafter
  cases hafter

end Embedded

end Signatory
