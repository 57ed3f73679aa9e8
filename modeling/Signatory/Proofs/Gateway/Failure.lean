import Signatory.Proofs.Gateway.History

/-! Failed executions. A result is that of a failure when it tells an error, so that a failure without words does not
show. -/

namespace Signatory
set_option autoImplicit false
open Outcome

namespace Ledger.Tells

variable {l : Ledger} {ex : Execution}

theorem readResult_message (h : l.Tells ex) {r : TransactionResult} (hr : l.readResult ex.admission.id = .ok r) :
    r.errorMessage = ex.outcome.message := by
  obtain ⟨block, events, _, hresult⟩ := h.result
  rw [readResult_of_find? hresult] at hr
  obtain ⟨_, _, hr⟩ := bind_eq_ok.mp hr
  obtain rfl := pure_eq_ok.mp hr
  rfl

theorem readResult_of_failed (h : l.Tells ex) {reason : Text} (houtcome : ex.outcome = .failed reason) :
    ∃ block, l.readResult ex.admission.id = .ok ⟨.sealed, reason, [], some block⟩ := by
  obtain ⟨block, events, hevents, hresult⟩ := h.result
  rw [houtcome] at hevents hresult
  obtain rfl : [] = events := Except.ok.inj hevents
  exact ⟨block, readResult_of_find? hresult⟩

end Ledger.Tells

theorem Execution.message_ne_nil_iff {ex : Execution} :
    ex.outcome.message ≠ [] ↔ ∃ reason, reason ≠ [] ∧ ex.outcome = .failed reason := by
  cases ex.outcome <;> simp [message]

namespace Embedded

variable {μ : Type} {G : Embedded μ}

/-- The execution of an accepted transaction is the latest one in the history. -/
theorem history_of_identifier {s : State μ} {calls : List Call} {call : Call} {id : Bytes}
    (h : G.answer (G.run s calls) call = .ok (.identifier id)) :
    ∃ ex, G.history s (calls ++ [call]) = G.history s calls ++ [ex] ∧ ex.admission.id = id ∧
      call.operation.submission? G ex.before = some (.ok ex.admission) ∧
      ex.before = (G.run s calls).ledger ∧ ex.after = (G.run s (calls ++ [call])).ledger ∧
      ex.outcome = (G.engine.runtime.execute ex.admission.transaction ex.before (G.run s calls).engine.memory).1 := by
  obtain ⟨x, hsubmission, hanswer⟩ := submission?_of_identifier h
  refine ⟨G.engine.execution (G.run s calls).engine x, ?_, Engine.id_of_attempt hanswer, hsubmission, rfl, ?_, rfl⟩
  · rw [history_concat hsubmission, Engine.executions_of_ok hanswer]
  · rw [run_concat, (attempt_of_submission? hsubmission).2]
    rfl

theorem failed_iff_message {s : State μ} {calls : List Call} {ex : Execution} (hex : ex ∈ G.history s calls)
    {c : Client (State μ)} (hc : c.backend = G.run s calls) {wait : Bool} {timeout : Option Number}
    {r : TransactionResult} (hr : (G.gateway.result ex.admission.id wait timeout c).1 = .ok r) :
    r.failed = true ↔ ex.outcome.message ≠ [] := by
  have hread := readResult_of_result hr
  rw [hc] at hread
  have hmessage := (tells_history s calls ex hex).1.readResult_message hread
  rw [← hmessage, TransactionResult.failed, Bool.not_eq_true', List.isEmpty_eq_false_iff]

/-- After a failure the result has no events, and of the accounts only the proposer's sequence number has changed. -/
theorem failure_rolled_back {s : State μ} {calls : List Call} {ex : Execution} (hex : ex ∈ G.history s calls)
    {reason : Text} (houtcome : ex.outcome = .failed reason) :
    (∀ c : Client (State μ), c.backend = G.run s calls →
      ∃ block, (G.gateway.fetchResult ex.admission.id c).1 = .ok ⟨.sealed, reason, [], some block⟩) ∧
    Engine.bump ex.before.accounts ex.admission.proposer ex.admission.transaction.keyIndex = .ok ex.after.accounts := by
  obtain ⟨htells, hsealed⟩ := tells_history s calls ex hex
  constructor
  · intro c hc
    obtain ⟨block, hread⟩ := htells.readResult_of_failed houtcome
    refine ⟨block, ?_⟩
    rw [← hc] at hread
    exact hread
  · obtain ⟨accounts, _, _, hbump, hafter⟩ := hsealed.sealed
    rw [Execution.accounts_of_failed houtcome] at hbump
    rw [hbump, hafter]
    rfl

/-- An accepted transaction has run to an end, and its result shows a failure exactly when the script failed with a text
that is not empty: that is, always rightly but after a failure without words. Any failure takes back what it did to the
accounts, and drops the events. -/
theorem failure_shown_iff_worded (s : State μ) (calls : List Call) :
    (∀ (call : Call) (id : Bytes), G.answer (G.run s calls) call = .ok (.identifier id) →
      ∃ ex, G.history s (calls ++ [call]) = G.history s calls ++ [ex] ∧ ex.admission.id = id ∧
        call.operation.submission? G ex.before = some (.ok ex.admission) ∧
        ex.before = (G.run s calls).ledger ∧ ex.after = (G.run s (calls ++ [call])).ledger ∧
        ex.outcome = (G.engine.runtime.execute ex.admission.transaction ex.before (G.run s calls).engine.memory).1) ∧
    ∀ ex ∈ G.history s calls, (∀ reason, ex.outcome ≠ .crashed reason) ∧
      (∀ c : Client (State μ), c.backend = G.run s calls → ∀ (wait : Bool) (timeout : Option Number) r,
        (G.gateway.result ex.admission.id wait timeout c).1 = .ok r →
        (r.failed = true ↔ ∃ reason, reason ≠ [] ∧ ex.outcome = .failed reason) ∧
        ((r.failed = true ↔ ∃ reason, ex.outcome = .failed reason) ↔ ex.outcome ≠ .failed [])) ∧
      ∀ reason, ex.outcome = .failed reason →
        (∀ c : Client (State μ), c.backend = G.run s calls →
          ∃ block, (G.gateway.fetchResult ex.admission.id c).1 = .ok ⟨.sealed, reason, [], some block⟩) ∧
        Engine.bump ex.before.accounts ex.admission.proposer ex.admission.transaction.keyIndex =
          .ok ex.after.accounts := by
  refine ⟨fun _ _ h => history_of_identifier h, ?_⟩
  intro ex hex
  refine ⟨(tells_history s calls ex hex).2.settled, ?_, fun _ houtcome => failure_rolled_back hex houtcome⟩
  intro c hc wait timeout r hr
  have hshown : r.failed = true ↔ ∃ reason, reason ≠ [] ∧ ex.outcome = .failed reason :=
    (failed_iff_message hex hc hr).trans Execution.message_ne_nil_iff
  refine ⟨hshown, ?_⟩
  rw [hshown]
  cases ex.outcome with
  | failed reason => simp
  | done emitted => simp
  | crashed reason => simp

/-- Takes every account away and fails. -/
def failing (reason : Text) : Runtime Unit where
  execute _ _ m := (.failed reason, .empty, m)
  evaluate _ _ l m := (.done Runtime.void, l, m)

/-- A failure in words: it shows, and only the sequence number is not as before. -/
theorem failure_shown_iff_worded_boom :
    let G := trusting (failing "boom")
    let s := trustingStart (failing "boom") ()
    let call : Call := ⟨.start (), .submit (serviceEnvelope (failing "boom") 0)⟩
    ∃ ex ∈ G.history s [call], ex.outcome = .failed "boom" ∧
      (∃ r, (G.gateway.result ex.admission.id false none (.start (G.run s [call]))).1 = .ok r ∧ r.failed = true) ∧
      Engine.bump s.ledger.accounts ex.admission.proposer ex.admission.transaction.keyIndex =
        .ok (G.run s [call]).ledger.accounts := by
  intro G s call
  have haccepted : isIdentifier (G.answer s call) = true := by decide +kernel
  obtain ⟨id, hid⟩ := isIdentifier_iff.mp haccepted
  obtain ⟨ex, hhistory, _, _, hbefore, hafter, houtcome⟩ := (failure_shown_iff_worded s []).1 call id hid
  have hex : ex ∈ G.history s [call] := hhistory ▸ List.mem_append_right _ (List.mem_singleton_self ex)
  obtain ⟨_, hresult, hfailure⟩ := (failure_shown_iff_worded s [call]).2 ex hex
  obtain ⟨hfetch, hbump⟩ := hfailure "boom" houtcome
  obtain ⟨block, hfetch⟩ := hfetch (.start (G.run s [call])) rfl
  refine ⟨ex, hex, houtcome, ⟨_, hfetch, ?_⟩, ?_⟩
  · exact (hresult _ rfl false none _ hfetch).1.mpr ⟨"boom", by decide, houtcome⟩
  · rw [hbefore, hafter] at hbump
    exact hbump

/-- A failure without words: its result is that of a run that went well. -/
theorem failure_unshown :
    let G := trusting (failing "")
    let s := trustingStart (failing "") ()
    let call : Call := ⟨.start (), .submit (serviceEnvelope (failing "") 0)⟩
    ∃ ex ∈ G.history s [call], ex.outcome = .failed "" ∧
      ∃ r, (G.gateway.result ex.admission.id false none (.start (G.run s [call]))).1 = .ok r ∧ r.failed = false := by
  intro G s call
  have haccepted : isIdentifier (G.answer s call) = true := by decide +kernel
  obtain ⟨id, hid⟩ := isIdentifier_iff.mp haccepted
  obtain ⟨ex, hhistory, _, _, _, _, houtcome⟩ := history_of_identifier (show G.answer (G.run s []) call = _ from hid)
  have hex : ex ∈ G.history s [call] := hhistory ▸ List.mem_append_right _ (List.mem_singleton_self ex)
  obtain ⟨block, hfetch⟩ := (failure_rolled_back hex houtcome).1 (.start (G.run s [call])) rfl
  exact ⟨ex, hex, houtcome, _, hfetch, rfl⟩

end Embedded

end Signatory
