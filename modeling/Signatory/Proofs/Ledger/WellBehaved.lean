import Signatory.Proofs.Ledger.Submission

/-! Runtimes that keep to accounts, and what a submission then does to the ledger. -/

namespace Signatory
set_option autoImplicit false

variable {μ : Type}

/-- An emitted value that an event can be made of: a map with a type. -/
def Emitted (v : Json) : Prop :=
  ∃ fields type, v = .object fields ∧ Entries.find? ("type" : Text) fields = some type

/-- An emitted map with a text for a type and a map for a payload. -/
def Readable (v : Json) : Prop :=
  ∃ fields type payload, v = .object fields ∧ Entries.find? ("type" : Text) fields = some (.text type) ∧
    Entries.find? ("payload" : Text) fields = some (.object payload)

namespace Runtime

/-- Executions touch accounts and remove some of them, and leave all else of a ledger alone. -/
def TouchesAccounts (R : Runtime μ) : Prop :=
  ∀ t l m emitted accounts m', R.execute t l m = (.done emitted, accounts, m') → l.accounts.Touched accounts

/-- Executions moreover keep the account of the proposer, and emit what can be read. -/
structure WellBehaved (R : Runtime μ) : Prop where
  touches : R.TouchesAccounts
  keeps : ∀ t l m emitted accounts m', R.execute t l m = (.done emitted, accounts, m') →
    ∀ a, t.proposer = .bytes a → a ∈ l.accounts.keys → a ∈ accounts.keys
  emits : ∀ t l m emitted accounts m', R.execute t l m = (.done emitted, accounts, m') → ∀ v ∈ emitted, Readable v

theorem null_wellBehaved : null.WellBehaved where
  touches t l m emitted accounts m' h := by
    obtain ⟨_, rfl⟩ : emitted = [] ∧ l.accounts = accounts := by simpa [null] using h
    exact l.accounts.touched_refl
  keeps t l m emitted accounts m' h a _ ha := by
    obtain ⟨_, rfl⟩ : emitted = [] ∧ l.accounts = accounts := by simpa [null] using h
    exact ha
  emits t l m emitted accounts m' h v hv := by
    obtain ⟨rfl, _⟩ : emitted = [] ∧ l.accounts = accounts := by simpa [null] using h
    cases hv

end Runtime

theorem Readable.emitted {v : Json} (h : Readable v) : Emitted v := by
  obtain ⟨fields, type, _, rfl, htype, _⟩ := h
  exact ⟨fields, .text type, rfl, htype⟩

/-- Events are made of all that is emitted, or of nothing. -/
theorem StoredEvent.ofEmitted_eq_ok_iff (id : Bytes) (position : Nat) {emitted : List Json} :
    (∃ events, ofEmitted id position emitted = .ok events) ↔ ∀ v ∈ emitted, Emitted v := by
  induction emitted generalizing position with
  | nil => simp [ofEmitted]
  | cons v rest ih =>
    rw [List.forall_mem_cons]
    cases v with
    | object fields =>
      unfold ofEmitted
      cases htype : Entries.find? ("type" : Text) fields with
      | none => simp [Emitted, htype]
      | some type =>
        have hv : Emitted (.object fields) := ⟨fields, type, rfl, htype⟩
        rw [← ih (position + 1)]
        simp only [hv, true_and]
        constructor
        · rintro ⟨_, h⟩
          obtain ⟨events, hevents, _⟩ := Outcome.bind_eq_ok.mp h
          exact ⟨events, hevents⟩
        · rintro ⟨events, hevents⟩
          exact ⟨_, Outcome.bind_eq_ok.mpr ⟨events, hevents, rfl⟩⟩
    | _ => simp [ofEmitted, Emitted]

theorem StoredEvent.ofEmitted_cons {id : Bytes} {position : Nat} {v : Json} {rest : List Json} {events : List StoredEvent}
    (h : ofEmitted id position (v :: rest) = .ok events) :
    ∃ type later, v.field? "type" = some type ∧ ofEmitted id (position + 1) rest = .ok later ∧
      events = ⟨type, id, 0, position, (v.field? "payload").getD (.object [])⟩ :: later := by
  cases v with
  | object fields =>
    unfold ofEmitted at h
    split at h
    · cases h
    · rename_i type htype
      obtain ⟨later, hlater, hevents⟩ := Outcome.bind_eq_ok.mp h
      exact ⟨type, later, htype, hlater, (Outcome.pure_eq_ok.mp hevents).symm⟩
  | _ => cases h

/-- Each emitted map becomes one event, at its own position. -/
theorem StoredEvent.ofEmitted_each {id : Bytes} {position : Nat} {emitted : List Json} {events : List StoredEvent}
    (h : ofEmitted id position emitted = .ok events) :
    events.length = emitted.length ∧ ∀ (i : Nat) v, emitted[i]? = some v → ∃ type, v.field? "type" = some type ∧
      events[i]? = some ⟨type, id, 0, (position + i : Nat), (v.field? "payload").getD (.object [])⟩ := by
  induction emitted generalizing position events with
  | nil =>
    obtain rfl := Except.ok.inj h
    exact ⟨rfl, nofun⟩
  | cons v rest ih =>
    obtain ⟨type, later, htype, hlater, rfl⟩ := ofEmitted_cons h
    obtain ⟨hlength, heach⟩ := ih hlater
    refine ⟨congrArg (· + 1) hlength, ?_⟩
    intro i w hw
    cases i with
    | zero =>
      obtain rfl := Option.some.inj hw
      exact ⟨type, htype, rfl⟩
    | succ i =>
      obtain ⟨other, hother, hevent⟩ := heach i w hw
      refine ⟨other, hother, ?_⟩
      rw [List.getElem?_cons_succ, hevent, Nat.add_right_comm, Nat.add_assoc]

theorem StoredEvent.exists_not_emitted {id : Bytes} {position : Nat} {emitted : List Json} {error : Error}
    (h : ofEmitted id position emitted = .error error) : ∃ v ∈ emitted, ¬Emitted v := by
  by_contra hall
  push Not at hall
  obtain ⟨events, hok⟩ := (ofEmitted_eq_ok_iff id position).mpr hall
  rw [hok] at h
  cases h

theorem StoredEvent.ofEmitted_failure {id : Bytes} {position : Nat} {emitted : List Json} {error : Error}
    (h : ofEmitted id position emitted = .error error) : error = .missingField "type" ∨ error = .wrongKind := by
  induction emitted generalizing position with
  | nil => cases h
  | cons v rest ih =>
    cases v with
    | object fields =>
      unfold ofEmitted at h
      split at h
      · exact .inl (Except.error.inj h).symm
      · rcases Outcome.bind_eq_error.mp h with h | ⟨_, _, h⟩
        · exact ih h
        · exact absurd h Outcome.pure_ne_error
    | _ => exact .inr (Except.error.inj h).symm

namespace Engine

variable {E : Engine μ}

/-- With the key and readable events at hand, sealing fails for want of time only. -/
theorem Sealing.of_emitted {s s' : State μ} {x : Admission} {emitted : List Json} {message : Text}
    {answer : Except Error Bytes} (h : Sealing E s x emitted message answer s')
    (hkey : ∃ n, s.ledger.accounts.sequence? x.proposer x.transaction.keyIndex = some n)
    (hemitted : ∀ v ∈ emitted, Emitted v) :
    ∃ accounts, bump s.ledger.accounts x.proposer x.transaction.keyIndex = .ok accounts ∧
      ((∃ error, E.clock s.readings = .error error ∧ answer = .error error ∧ s'.ledger = { s.ledger with accounts }) ∨
        ∃ time events, E.clock s.readings = .ok time ∧ StoredEvent.ofEmitted x.id 0 emitted = .ok events ∧
          answer = .ok x.id ∧ s'.ledger = E.sealed s.ledger x accounts time events message) := by
  cases h with
  | noKey hbump =>
    obtain ⟨n, hn⟩ := hkey
    rw [bump_eq_error hbump] at hn
    cases hn
  | @noTime accounts error hbump hclock => exact ⟨accounts, hbump, .inl ⟨error, hclock, rfl, rfl⟩⟩
  | noEvents _ _ hevents =>
    obtain ⟨v, hv, hnot⟩ := StoredEvent.exists_not_emitted hevents
    exact absurd (hemitted v hv) hnot
  | @done accounts time events hbump hclock hevents =>
    exact ⟨accounts, hbump, .inr ⟨time, events, hclock, hevents, rfl, rfl⟩⟩

variable (E)

/-- How a submission to a well-behaved runtime ends: refused, crashed, or with the proposer's sequence number raised after
the run has touched the accounts, and then sealed unless the clock gives no time. -/
inductive Attempting (s : State μ) (admission : Except Error Admission) : Except Error Bytes → Ledger → Prop where
  | refused {error : Error} : admission = .error error → Attempting s admission (.error error) s.ledger
  | crashed {x : Admission} {reason : Text} {accounts : Accounts} {memory : μ} : admission = .ok x →
      E.runtime.execute x.transaction s.ledger s.memory = (.crashed reason, accounts, memory) →
      Attempting s admission (.error (.rejected (.execution reason))) s.ledger
  | untimed {x : Admission} {left accounts : Accounts} {error : Error} : admission = .ok x →
      s.ledger.accounts.Touched left → x.proposer ∈ left.keys →
      bump left x.proposer x.transaction.keyIndex = .ok accounts → E.clock s.readings = .error error →
      Attempting s admission (.error error) { s.ledger with accounts }
  | sealed {x : Admission} {left accounts : Accounts} {time : Moment} {emitted : List Json}
      {events : List StoredEvent} (message : Text) : admission = .ok x →
      s.ledger.accounts.Touched left → x.proposer ∈ left.keys →
      bump left x.proposer x.transaction.keyIndex = .ok accounts → E.clock s.readings = .ok time →
      StoredEvent.ofEmitted x.id 0 emitted = .ok events →
      Attempting s admission (.ok x.id) (E.sealed s.ledger x accounts time events message)

variable {E}

theorem attempt_attempting (hR : E.runtime.WellBehaved) (s : State μ) {admission : Except Error Admission}
    (hfits : ∀ x, admission = .ok x → x.Fits s.ledger) :
    Attempting E s admission (E.attempt s admission).1 (E.attempt s admission).2.ledger := by
  cases admission with
  | error error => exact .refused rfl
  | ok x =>
    have hfit := hfits x rfl
    obtain ⟨n, hn, _⟩ := hfit.sequence
    have hthere := Accounts.mem_keys_of_sequence? hn
    have hrunning := attempt_running E s x
    generalize E.attempt s (.ok x) = result at hrunning ⊢
    obtain ⟨answer, s'⟩ := result
    simp only at hrunning ⊢
    cases hrunning with
    | crashed hexecute => exact .crashed rfl hexecute
    | @failed reason _ _ _ _ _ hsealing =>
      obtain ⟨accounts, hbump, ⟨error, hclock, rfl, hledger⟩ | ⟨time, events, hclock, hevents, rfl, hledger⟩⟩ :=
        hsealing.of_emitted ⟨n, hn⟩ fun _ h => nomatch h
      · exact hledger ▸ .untimed rfl s.ledger.accounts.touched_refl hthere hbump hclock
      · exact hledger ▸ .sealed reason rfl s.ledger.accounts.touched_refl hthere hbump hclock hevents
    | @done emitted left _ _ _ hexecute hsealing =>
      have htouched := hR.touches _ _ _ _ _ _ hexecute
      have hkept := hR.keeps _ _ _ _ _ _ hexecute x.proposer hfit.proposer hthere
      have hkey : left.sequence? x.proposer x.transaction.keyIndex = some n := by
        rw [htouched.sequence?_eq hkept, hn]
      obtain ⟨accounts, hbump, ⟨error, hclock, rfl, hledger⟩ | ⟨time, events, hclock, hevents, rfl, hledger⟩⟩ :=
        hsealing.of_emitted ⟨n, hkey⟩ fun v hv => (hR.emits _ _ _ _ _ _ hexecute v hv).emitted
      · exact hledger ▸ .untimed rfl htouched hkept hbump hclock
      · exact hledger ▸ .sealed [] rfl htouched hkept hbump hclock hevents

end Engine

end Signatory
