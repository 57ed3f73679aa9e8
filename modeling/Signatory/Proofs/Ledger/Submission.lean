import Signatory.Ledger.LooseSubmission
import Signatory.Proofs.Ledger.Accounts
import Signatory.Proofs.Number
import Signatory.Proofs.Outcome
import Signatory.Proofs.Transaction.Loosening

/-! What a submission can do. Both forms of it accept a transaction and then run and seal it; the ways in which that
can end are the cases of `Sealing` and `Running`. -/

namespace Signatory.Engine
set_option autoImplicit false
open Outcome
open Cbor (Value)

/-- A transaction that may run, under the address of its proposer. -/
structure Admission where
  proposer : Bytes
  transaction : LooseTransaction
  id : Bytes

/-- A transaction is new, and its proposer has the sequence number that it bears. -/
structure Admission.Fits (x : Admission) (l : Ledger) : Prop where
  fresh : x.id ∉ l.transactions.keys
  proposer : x.transaction.proposer = .bytes x.proposer
  sequence : ∃ n, l.accounts.sequence? x.proposer x.transaction.keyIndex = some n ∧
    (.int n == x.transaction.sequenceNumber) = true

/-- What validation lets through: a transaction that fits the ledger, under its own identifier. -/
structure Admission.Admitted (suite : CryptoSuite) (l : Ledger) (x : Admission) : Prop where
  fits : x.Fits l
  named : x.transaction.id suite = .ok x.id

variable {μ : Type} (E : Engine μ)

/-- The ledger after a run is sealed in a block of its own. -/
def sealed (l : Ledger) (x : Admission) (accounts : Accounts) (time : Moment) (events : List StoredEvent)
    (message : Text) : Ledger :=
  let block := E.nextBlock l.blocks [E.collectionId x.id] time
  { accounts
    blocks := l.blocks ++ [block]
    transactions := l.transactions.insert x.id x.transaction
    results := l.results.insert x.id ⟨x.id, block.id, message, events⟩
    collections := l.collections.insert (E.collectionId x.id) [x.id]
    events := l.events.insert block.id events
    accountCounter := l.accountCounter }

def accept (l : Ledger) (t : Transaction) : Except Error Admission := do
  let id ← t.id E.suite
  E.validate l t id
  return ⟨t.proposalKey.address, t.loosen, id⟩

def acceptLoose (l : Ledger) (t : LooseTransaction) : Except Error Admission := do
  let id ← t.id E.suite
  return ⟨← E.validateLoose l t id, t, id⟩

/-- What is admitted runs. -/
def attempt (s : State μ) (admission : Except Error Admission) : Except Error Bytes × State μ :=
  match admission with
  | .error e => (.error e, s)
  | .ok x => E.run s x.proposer x.transaction x.id

theorem submit_eq_attempt (s : State μ) (t : Transaction) : E.submit s t = E.attempt s (E.accept s.ledger t) := by
  unfold submit accept attempt
  cases t.id E.suite with
  | error e => rfl
  | ok id => cases hvalid : E.validate s.ledger t id <;> simp [bind, Except.bind, hvalid, pure, Except.pure]

theorem submitLoose_eq_attempt (s : State μ) (t : LooseTransaction) :
    E.submitLoose s t = E.attempt s (E.acceptLoose s.ledger t) := by
  unfold submitLoose acceptLoose attempt
  cases t.id E.suite with
  | error e => rfl
  | ok id => cases hvalid : E.validateLoose s.ledger t id <;> simp [bind, Except.bind, hvalid, pure, Except.pure]

variable {E}

theorem reject_eq_ok {α : Type} {r : Except Rejection α} {x : α} : reject r = .ok x ↔ r = .ok x := by
  cases r <;> simp [reject, Except.mapError]

theorem reject_eq_error {α : Type} {r : Except Rejection α} {error : Error} :
    (reject r : Except Error α) = .error error ↔ ∃ rejection, r = .error rejection ∧ error = .rejected rejection := by
  cases r <;> simp [reject, Except.mapError, eq_comm]

theorem account_eq_ok {l : Ledger} {address : Bytes} {a : StoredAccount} :
    l.account address = .ok a ↔ l.accounts.find? address = some a := by
  unfold Ledger.account
  cases l.accounts.find? address <;> simp

theorem sequence?_of_key? {accounts : Accounts} {address : Bytes} {a : StoredAccount} {index : Int} {key : StoredKey}
    (ha : accounts.find? address = some a) (hkey : a.key? index = some key) :
    accounts.sequence? address index = some key.sequenceNumber := by
  unfold StoredAccount.key? at hkey
  simp [Accounts.sequence?, StoredKey.sequence?, ha, hkey]

theorem sequence?_ne_none_of_bump {accounts accounts' : Accounts} {address : Bytes} {index : Int}
    (h : bump accounts address index = .ok accounts') : accounts.sequence? address index ≠ none := by
  obtain ⟨account, key, haccount, hkey, _⟩ := bump_eq_ok h
  rw [sequence?_of_key? haccount hkey]
  exact Option.some_ne_none _

theorem checkProposal_eq_ok {l : Ledger} {address : Bytes} {index sequence : Int}
    (h : checkProposal l address index sequence = .ok ()) :
    l.accounts.sequence? address index = some sequence := by
  unfold checkProposal at h
  rw [bind_eq_ok] at h
  obtain ⟨account, haccount, h⟩ := h
  split at h
  · cases h
  · rename_i key hkey
    split at h
    · rename_i hsequence
      rw [sequence?_of_key? (account_eq_ok.mp haccount) hkey, hsequence]
    · cases h

theorem findAccount_eq_ok {l : Ledger} {item : Value} {address : Bytes} {a : StoredAccount}
    (h : findAccount l item = .ok (address, a)) : item = .bytes address ∧ l.accounts.find? address = some a := by
  unfold findAccount at h
  split at h
  · simp only [bind_eq_ok, reject_eq_ok, account_eq_ok, pure_eq_ok, Prod.mk.injEq] at h
    obtain ⟨_, ha, rfl, rfl⟩ := h
    exact ⟨rfl, ha⟩
  · simp only [bind_eq_ok] at h
    obtain ⟨_, _, _, _, h⟩ := h
    cases h

theorem checkLooseProposal_eq_ok {l : Ledger} {t : LooseTransaction} {address : Bytes}
    (h : checkLooseProposal l t = .ok address) : t.proposer = .bytes address ∧
      ∃ n, l.accounts.sequence? address t.keyIndex = some n ∧ (.int n == t.sequenceNumber) = true := by
  unfold checkLooseProposal at h
  rw [bind_eq_ok] at h
  obtain ⟨⟨a, account⟩, haccount, h⟩ := h
  obtain ⟨hitem, hfind⟩ := findAccount_eq_ok haccount
  simp only at h
  split at h
  · cases h
  · rename_i key hkey
    split at h
    · rename_i hsequence
      obtain rfl := pure_eq_ok.mp h
      exact ⟨hitem, key.sequenceNumber, sequence?_of_key? hfind hkey, hsequence⟩
    · cases h

/-- What the policy demands of a transaction. -/
theorem validate_eq_ok {l : Ledger} {t : Transaction} {id : Bytes} : E.validate l t id = .ok () ↔
    id ∉ l.transactions.keys ∧ ∃ reference gas sequence payload envelope,
      t.network? = some (reference, gas, sequence) ∧ gas ≤ E.maxGasLimit ∧ (∃ b ∈ l.blocks, b.id = reference) ∧
      t.missingSignatures = [] ∧
      t.payloadMessage = .ok payload ∧ E.checkSignatures l payload t.payloadSignatures.entries = .ok () ∧
      t.envelopeMessage = .ok envelope ∧ E.checkSignatures l envelope t.envelopeSignatures.entries = .ok () ∧
      checkProposal l t.proposalKey.address t.proposalKey.keyIndex sequence = .ok () := by
  unfold validate
  cases t.network? with
  | none => simp [check_eq_ok]
  | some network =>
    obtain ⟨reference, gas, sequence⟩ := network
    simp only [check_eq_ok, bind_eq_ok, reject_eq_ok, OrderedMap.contains_iff, Int.not_lt, Bool.not_eq_true',
      Bool.not_eq_false, List.any_eq_true, decide_eq_true_eq, List.isEmpty_iff]
    constructor
    · rintro ⟨hnew, hgas, hblock, hmissing, payload, hpayload, _, hp, envelope, henvelope, _, he, hproposal⟩
      exact ⟨hnew, reference, gas, sequence, payload, envelope, rfl, hgas, hblock, hmissing, hpayload, hp, henvelope,
        he, hproposal⟩
    · rintro ⟨hnew, _, _, _, payload, envelope, heq, hgas, hblock, hmissing, hpayload, hp, henvelope, he, hproposal⟩
      obtain ⟨rfl, rfl, rfl⟩ : reference = _ ∧ gas = _ ∧ sequence = _ := by simpa using heq
      exact ⟨hnew, hgas, hblock, hmissing, payload, hpayload, (), hp, envelope, henvelope, (), he, hproposal⟩

theorem validateLoose_eq_ok {l : Ledger} {t : LooseTransaction} {id proposer : Bytes}
    (h : E.validateLoose l t id = .ok proposer) :
    id ∉ l.transactions.keys ∧ t.isPrepared = true ∧ checkLooseProposal l t = .ok proposer := by
  unfold validateLoose at h
  simp only [bind_eq_ok, check_eq_ok, OrderedMap.contains_iff, Bool.not_eq_true', Bool.not_eq_false] at h
  obtain ⟨hnew, hprepared, _, _, _, _, missing, _, h⟩ := h
  refine ⟨hnew, hprepared, ?_⟩
  cases missing with
  | cons _ _ => cases h
  | nil =>
    simp only [bind_eq_ok] at h
    obtain ⟨_, _, _, _, _, _, _, _, h⟩ := h
    exact h

theorem accept_fits {l : Ledger} {t : Transaction} {x : Admission} (h : E.accept l t = .ok x) : x.Fits l := by
  simp only [accept, bind_eq_ok, pure_eq_ok] at h
  obtain ⟨id, _, _, hvalid, rfl⟩ := h
  obtain ⟨hnew, reference, gas, sequence, _, _, hnetwork, _, _, _, _, _, _, _, hproposal⟩ := validate_eq_ok.mp hvalid
  refine ⟨hnew, rfl, sequence, checkProposal_eq_ok hproposal, ?_⟩
  simp only [Transaction.loosen, Transaction.ofOptional, (Transaction.network?_eq_some.mp hnetwork).2.2]
  exact Value.int_alike_iff.mpr ⟨.int sequence, rfl, BinaryValue.rat?_ofInt sequence⟩

theorem acceptLoose_fits {l : Ledger} {t : LooseTransaction} {x : Admission} (h : E.acceptLoose l t = .ok x) :
    x.Fits l := by
  simp only [acceptLoose, bind_eq_ok, pure_eq_ok] at h
  obtain ⟨id, _, proposer, hvalid, rfl⟩ := h
  obtain ⟨hnew, _, hproposal⟩ := validateLoose_eq_ok hvalid
  obtain ⟨hitem, hsequence⟩ := checkLooseProposal_eq_ok hproposal
  exact ⟨hnew, hitem, hsequence⟩

theorem accept_transaction {l : Ledger} {t : Transaction} {x : Admission} (h : E.accept l t = .ok x) :
    x.transaction = t.loosen := by
  simp only [accept, bind_eq_ok, pure_eq_ok] at h
  obtain ⟨_, _, _, _, rfl⟩ := h
  rfl

theorem acceptLoose_transaction {l : Ledger} {t : LooseTransaction} {x : Admission} (h : E.acceptLoose l t = .ok x) :
    x.transaction = t := by
  simp only [acceptLoose, bind_eq_ok, pure_eq_ok] at h
  obtain ⟨_, _, _, _, rfl⟩ := h
  rfl

theorem accept_admitted {l : Ledger} {t : Transaction} {x : Admission} (h : E.accept l t = .ok x) :
    x.Admitted E.suite l := by
  refine ⟨accept_fits h, ?_⟩
  simp only [accept, bind_eq_ok, pure_eq_ok] at h
  obtain ⟨id, hid, _, _, rfl⟩ := h
  exact (t.id_loosen E.suite).trans hid

theorem acceptLoose_admitted {l : Ledger} {t : LooseTransaction} {x : Admission} (h : E.acceptLoose l t = .ok x) :
    x.Admitted E.suite l := by
  refine ⟨acceptLoose_fits h, ?_⟩
  simp only [acceptLoose, bind_eq_ok, pure_eq_ok] at h
  obtain ⟨id, hid, _, _, rfl⟩ := h
  exact hid

theorem transactions_sealed {l : Ledger} {x : Admission} (hfresh : x.id ∉ l.transactions.keys) (accounts : Accounts)
    (time : Moment) (events : List StoredEvent) (message : Text) :
    (E.sealed l x accounts time events message).transactions.keys = l.transactions.keys ++ [x.id] ∧
    (E.sealed l x accounts time events message).transactions.values = l.transactions.values ++ [x.transaction] :=
  ⟨OrderedMap.keys_insert_of_notMem hfresh, OrderedMap.values_insert_of_notMem hfresh⟩

/-- The proposer of a transaction that is sealed holds an account. -/
theorem proposers_sealed {P : Bytes → Prop} {l : Ledger} {x : Admission} (hfits : x.Fits l)
    (haccounts : ∀ a ∈ l.accounts.keys, P a)
    (hproposers : ∀ t ∈ l.transactions.values, ∃ a, t.proposer = .bytes a ∧ P a) (accounts : Accounts) (time : Moment)
    (events : List StoredEvent) (message : Text) :
    ∀ t ∈ (E.sealed l x accounts time events message).transactions.values, ∃ a, t.proposer = .bytes a ∧ P a := by
  intro t ht
  rw [(transactions_sealed hfits.fresh accounts time events message).2, List.mem_append, List.mem_singleton] at ht
  rcases ht with ht | rfl
  · exact hproposers t ht
  · obtain ⟨n, hn, _⟩ := hfits.sequence
    exact ⟨x.proposer, hfits.proposer, haccounts _ (Accounts.mem_keys_of_sequence? hn)⟩

theorem start_eq_ok {service : RawKey} {memory : μ} {s : State μ} (h : E.start service memory = .ok s) :
    ∃ time, s.ledger = { Ledger.empty with
      accounts := OrderedMap.empty.insert serviceAddress { address := serviceAddress, keys := keysFrom 0 [service] }
      blocks := [E.nextBlock [] [] time] } := by
  unfold start commitBlock at h
  cases hclock : E.clock 0 with
  | error error => simp [hclock, Except.map] at h
  | ok time =>
    refine ⟨time, ?_⟩
    simp only [hclock, Except.map, Except.ok.injEq] at h
    rw [← h]
    rfl

variable (E)

/-- How sealing a run ends: without the key, without the time, without readable events, or with a block. -/
inductive Sealing (s : State μ) (x : Admission) (emitted : List Json) (message : Text) :
    Except Error Bytes → State μ → Prop where
  | noKey {error : Error} :
      bump s.ledger.accounts x.proposer x.transaction.keyIndex = .error error →
      Sealing s x emitted message (.error error) s
  | noTime {accounts : Accounts} {error : Error} :
      bump s.ledger.accounts x.proposer x.transaction.keyIndex = .ok accounts →
      E.clock s.readings = .error error →
      Sealing s x emitted message (.error error)
        { s with ledger := { s.ledger with accounts }, readings := s.readings + 1 }
  | noEvents {accounts : Accounts} {time : Moment} {error : Error} :
      bump s.ledger.accounts x.proposer x.transaction.keyIndex = .ok accounts →
      E.clock s.readings = .ok time →
      StoredEvent.ofEmitted x.id 0 emitted = .error error →
      Sealing s x emitted message (.error error)
        { s with
          ledger := { s.ledger with
            accounts
            blocks := s.ledger.blocks ++ [E.nextBlock s.ledger.blocks [E.collectionId x.id] time] }
          readings := s.readings + 1 }
  | done {accounts : Accounts} {time : Moment} {events : List StoredEvent} :
      bump s.ledger.accounts x.proposer x.transaction.keyIndex = .ok accounts →
      E.clock s.readings = .ok time →
      StoredEvent.ofEmitted x.id 0 emitted = .ok events →
      Sealing s x emitted message (.ok x.id)
        { s with
          ledger := E.sealed s.ledger x accounts time events message
          readings := s.readings + 1 }

theorem sealRun_sealing (s : State μ) (x : Admission) (emitted : List Json) (message : Text) :
    Sealing E s x emitted message (E.sealRun s x.proposer x.transaction x.id emitted message).1
      (E.sealRun s x.proposer x.transaction x.id emitted message).2 := by
  unfold sealRun commitBlock
  cases hbump : bump s.ledger.accounts x.proposer x.transaction.keyIndex with
  | error error => exact .noKey hbump
  | ok accounts =>
    cases hclock : E.clock s.readings with
    | error error => simpa [hclock] using .noTime hbump hclock
    | ok time =>
      cases hevents : StoredEvent.ofEmitted x.id 0 emitted with
      | error error => simpa [hclock, hevents] using .noEvents hbump hclock hevents
      | ok events => simpa [hclock, hevents] using .done hbump hclock hevents

/-- How running what was admitted ends: the runtime crashes, or its run is sealed, after a failure of the script on the
accounts as they were. -/
inductive Running (s : State μ) (x : Admission) : Except Error Bytes → State μ → Prop where
  | crashed {reason : Text} {accounts : Accounts} {memory : μ} :
      E.runtime.execute x.transaction s.ledger s.memory = (.crashed reason, accounts, memory) →
      Running s x (.error (.rejected (.execution reason))) { s with memory }
  | failed {reason : Text} {accounts : Accounts} {memory : μ} {answer : Except Error Bytes} {s' : State μ} :
      E.runtime.execute x.transaction s.ledger s.memory = (.failed reason, accounts, memory) →
      Sealing E { s with memory } x [] reason answer s' → Running s x answer s'
  | done {emitted : List Json} {accounts : Accounts} {memory : μ} {answer : Except Error Bytes} {s' : State μ} :
      E.runtime.execute x.transaction s.ledger s.memory = (.done emitted, accounts, memory) →
      Sealing E { s with ledger := { s.ledger with accounts }, memory } x emitted [] answer s' →
      Running s x answer s'

theorem run_running (s : State μ) (x : Admission) :
    Running E s x (E.run s x.proposer x.transaction x.id).1 (E.run s x.proposer x.transaction x.id).2 := by
  unfold run
  rcases hexecute : E.runtime.execute x.transaction s.ledger s.memory with ⟨outcome, accounts, memory⟩
  cases outcome with
  | done emitted => exact .done hexecute (sealRun_sealing E _ x emitted [])
  | failed reason => exact .failed hexecute (sealRun_sealing E _ x [] reason)
  | crashed reason => exact .crashed hexecute

theorem attempt_running (s : State μ) (x : Admission) :
    Running E s x (E.attempt s (.ok x)).1 (E.attempt s (.ok x)).2 := run_running E s x

end Signatory.Engine
