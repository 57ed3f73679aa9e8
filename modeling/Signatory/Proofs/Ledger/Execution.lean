import Signatory.Proofs.Ledger.WellBehaved

/-! Executions: a transaction that ran and was sealed, with the way its run ended and the ledgers on both sides. The
ledger after it tells of it, whatever its runtime does, and no later submission takes that back. -/

namespace Signatory
set_option autoImplicit false

namespace Outcome

/-- The events of a run; those of a failed one are dropped. -/
def emitted : Outcome (List Json) → List Json
  | done emitted => emitted
  | failed _ | crashed _ => []

/-- The message under which a run is sealed. -/
def message : Outcome (List Json) → Text
  | failed reason => reason
  | done _ | crashed _ => []

end Outcome

structure Execution where
  admission : Engine.Admission
  outcome : Outcome (List Json)
  /-- The accounts as the runtime left them. -/
  left : Accounts
  before : Ledger
  after : Ledger

/-- The accounts with which a run ends: a failure takes back what it did to them. -/
def Execution.accounts (ex : Execution) : Accounts :=
  match ex.outcome with
  | .done _ => ex.left
  | .failed _ | .crashed _ => ex.before.accounts

theorem Execution.accounts_of_failed {ex : Execution} {reason : Text} (h : ex.outcome = .failed reason) :
    ex.accounts = ex.before.accounts := by
  rw [accounts, h]

theorem Execution.accounts_of_done {ex : Execution} {emitted : List Json} (h : ex.outcome = .done emitted) :
    ex.accounts = ex.left := by
  rw [accounts, h]

/-- The transaction of an execution is stored, and its result has the message and the events of the run. -/
structure Ledger.Tells (l : Ledger) (ex : Execution) : Prop where
  stored : ex.admission.id ∈ l.transactions.keys
  result : ∃ block events, StoredEvent.ofEmitted ex.admission.id 0 ex.outcome.emitted = .ok events ∧
    l.results.find? ex.admission.id = some ⟨ex.admission.id, block, ex.outcome.message, events⟩

namespace Engine

variable {μ : Type} (E : Engine μ)

def execution (s : State μ) (x : Admission) : Execution where
  admission := x
  outcome := (E.runtime.execute x.transaction s.ledger s.memory).1
  left := (E.runtime.execute x.transaction s.ledger s.memory).2.1
  before := s.ledger
  after := (E.attempt s (.ok x)).2.ledger

def executions (s : State μ) : Except Error Admission → List Execution
  | .error _ => []
  | .ok x =>
    match (E.attempt s (.ok x)).1 with
    | .ok _ => [E.execution s x]
    | .error _ => []

/-- How an attempt ends: sealed with its events and its message, on the accounts with which the run ended, or with
nothing stored; a block is then left over only where the events could not be read. -/
inductive Ending (s : State μ) (admission : Except Error Admission) :
    Except Error Bytes → Ledger → List Execution → Prop where
  | sealed {x : Admission} {accounts : Accounts} {time : Moment} {events : List StoredEvent} : admission = .ok x →
      (∀ reason, (E.execution s x).outcome ≠ .crashed reason) →
      bump (E.execution s x).accounts x.proposer x.transaction.keyIndex = .ok accounts →
      StoredEvent.ofEmitted x.id 0 (E.execution s x).outcome.emitted = .ok events →
      Ending s admission (.ok x.id) (E.sealed s.ledger x accounts time events (E.execution s x).outcome.message)
        [E.execution s x]
  | unsealed {error : Error} (accounts : Accounts) {blocks : List StoredBlock} :
      (blocks = s.ledger.blocks ∨
        ∃ x, admission = .ok x ∧ ∃ v ∈ (E.execution s x).outcome.emitted, ¬Emitted v) →
      Ending s admission (.error error) { s.ledger with accounts, blocks } []

/-- An execution was sealed on the accounts with which its run ended. -/
structure Sealed (ex : Execution) : Prop where
  admitted : ex.admission.Admitted E.suite ex.before
  settled : ∀ reason, ex.outcome ≠ .crashed reason
  sealed : ∃ accounts time events,
    bump ex.accounts ex.admission.proposer ex.admission.transaction.keyIndex = .ok accounts ∧
    ex.after = E.sealed ex.before ex.admission accounts time events ex.outcome.message

variable {E} {s : State μ}

theorem executions_of_ok {x : Admission} {id : Bytes} (h : (E.attempt s (.ok x)).1 = .ok id) :
    E.executions s (.ok x) = [E.execution s x] := by
  simp only [executions, h]

theorem executions_of_error {x : Admission} {error : Error} (h : (E.attempt s (.ok x)).1 = .error error) :
    E.executions s (.ok x) = [] := by
  simp only [executions, h]

theorem Sealing.ending {t t' : State μ} {x : Admission} {emitted : List Json} {message : Text}
    {answer : Except Error Bytes} (h : Sealing E t x emitted message answer t')
    (hattempt : E.attempt s (.ok x) = (answer, t'))
    (ht : t.ledger = { s.ledger with accounts := (E.execution s x).accounts })
    (hsettled : ∀ reason, (E.execution s x).outcome ≠ .crashed reason)
    (hemitted : (E.execution s x).outcome.emitted = emitted) (hmessage : (E.execution s x).outcome.message = message) :
    Ending E s (.ok x) answer t'.ledger (E.executions s (.ok x)) := by
  subst hemitted hmessage
  cases h with
  | noKey _ =>
    rw [executions_of_error (congrArg Prod.fst hattempt), ht]
    exact .unsealed (E.execution s x).accounts (.inl rfl)
  | @noTime accounts _ _ _ =>
    rw [executions_of_error (congrArg Prod.fst hattempt), ht]
    exact .unsealed accounts (.inl rfl)
  | @noEvents accounts _ _ _ _ hevents =>
    rw [executions_of_error (congrArg Prod.fst hattempt), ht]
    exact .unsealed accounts (.inr ⟨x, rfl, StoredEvent.exists_not_emitted hevents⟩)
  | @done accounts time events hbump _ hevents =>
    rw [ht] at hbump
    rw [executions_of_ok (congrArg Prod.fst hattempt)]
    simp only [ht]
    exact .sealed rfl hsettled hbump hevents

theorem attempt_ending (s : State μ) (admission : Except Error Admission) :
    Ending E s admission (E.attempt s admission).1 (E.attempt s admission).2.ledger (E.executions s admission) := by
  cases admission with
  | error error => exact .unsealed s.ledger.accounts (.inl rfl)
  | ok x =>
    have hrunning := attempt_running E s x
    rcases hattempt : E.attempt s (.ok x) with ⟨answer, s'⟩
    rw [hattempt] at hrunning
    cases hrunning with
    | crashed hexecute =>
      rw [executions_of_error (congrArg Prod.fst hattempt)]
      exact .unsealed s.ledger.accounts (.inl rfl)
    | @failed reason _ _ _ _ hexecute hsealing =>
      have houtcome : (E.execution s x).outcome = .failed reason := congrArg Prod.fst hexecute
      refine hsealing.ending hattempt ?_ (fun _ h => nomatch houtcome.symm.trans h) ?_ ?_
      · rw [Execution.accounts_of_failed houtcome]
        rfl
      · rw [houtcome, Outcome.emitted]
      · rw [houtcome, Outcome.message]
    | @done emitted left _ _ _ hexecute hsealing =>
      have houtcome : (E.execution s x).outcome = .done emitted := congrArg Prod.fst hexecute
      have hleft : (E.execution s x).left = left := congrArg (fun ran => ran.2.1) hexecute
      refine hsealing.ending hattempt ?_ (fun _ h => nomatch houtcome.symm.trans h) ?_ ?_
      · rw [Execution.accounts_of_done houtcome, hleft]
      · rw [houtcome, Outcome.emitted]
      · rw [houtcome, Outcome.message]

theorem sealed_of_attempt {x : Admission} {id : Bytes} (h : (E.attempt s (.ok x)).1 = .ok id) :
    x.id = id ∧ ∃ accounts time events,
      StoredEvent.ofEmitted x.id 0 (E.execution s x).outcome.emitted = .ok events ∧
      (E.attempt s (.ok x)).2.ledger = E.sealed s.ledger x accounts time events (E.execution s x).outcome.message := by
  have hending := attempt_ending (E := E) s (.ok x)
  generalize (E.attempt s (.ok x)).2.ledger = after at hending ⊢
  generalize E.executions s (.ok x) = executions at hending
  rw [h] at hending
  cases hending with
  | @sealed _ accounts time events hx _ _ hevents =>
    obtain rfl := Except.ok.inj hx
    exact ⟨rfl, accounts, time, events, hevents, rfl⟩

theorem id_of_attempt {x : Admission} {id : Bytes} (h : (E.attempt s (.ok x)).1 = .ok id) : x.id = id :=
  (sealed_of_attempt h).1

section Attempt

variable {admission : Except Error Admission}

theorem sealed_of_mem_executions (hadmitted : ∀ x, admission = .ok x → x.Admitted E.suite s.ledger) {ex : Execution}
    (hex : ex ∈ E.executions s admission) : E.Sealed ex := by
  have hending := attempt_ending (E := E) s admission
  generalize (E.attempt s admission).1 = answer at hending
  generalize hafter : (E.attempt s admission).2.ledger = after at hending
  generalize E.executions s admission = executions at hending hex
  cases hending with
  | @sealed x accounts time events hx hsettled hbump _ =>
    obtain rfl := List.mem_singleton.mp hex
    subst hx
    exact ⟨hadmitted x rfl, hsettled, accounts, time, events, hbump, hafter⟩
  | unsealed => cases hex

variable (hfresh : ∀ x, admission = .ok x → x.id ∉ s.ledger.transactions.keys)
include hfresh

/-- The transactions of a ledger are those of its executions, in their order. -/
theorem keys_attempt : (E.attempt s admission).2.ledger.transactions.keys =
    s.ledger.transactions.keys ++ (E.executions s admission).map (·.admission.id) := by
  have hending := attempt_ending (E := E) s admission
  generalize (E.attempt s admission).1 = answer at hending
  generalize (E.attempt s admission).2.ledger = after at hending ⊢
  generalize E.executions s admission = executions at hending ⊢
  cases hending with
  | sealed hx => exact (transactions_sealed (hfresh _ hx) _ _ _ _).1
  | unsealed => exact (List.append_nil _).symm

theorem tells_attempt {es : List Execution} (h : ∀ ex ∈ es, s.ledger.Tells ex) :
    ∀ ex ∈ es ++ E.executions s admission, (E.attempt s admission).2.ledger.Tells ex := by
  have hending := attempt_ending (E := E) s admission
  generalize (E.attempt s admission).1 = answer at hending
  generalize (E.attempt s admission).2.ledger = after at hending ⊢
  generalize E.executions s admission = executions at hending ⊢
  intro ex hex
  cases hending with
  | @sealed x accounts time events hx _ _ hevents =>
    rcases List.mem_append.mp hex with hex | hex
    · -- Its result was stored before, and goes by another name.
      obtain ⟨hstored, block, events, hevents, hresult⟩ := h ex hex
      have hne : x.id ≠ ex.admission.id := by
        rintro heq
        exact hfresh x hx (heq ▸ hstored)
      constructor
      · rw [(transactions_sealed (hfresh x hx) _ _ _ _).1]
        exact List.mem_append_left _ hstored
      · refine ⟨block, events, hevents, ?_⟩
        rw [Engine.sealed, OrderedMap.find?_insert, if_neg hne]
        exact hresult
    · obtain rfl := List.mem_singleton.mp hex
      constructor
      · exact OrderedMap.mem_keys_iff.mpr ⟨x.transaction, OrderedMap.find?_insert_self⟩
      · exact ⟨_, events, hevents, OrderedMap.find?_insert_self⟩
  | unsealed =>
    rw [List.append_nil] at hex
    exact ⟨(h ex hex).stored, (h ex hex).result⟩

end Attempt

end Engine

end Signatory
