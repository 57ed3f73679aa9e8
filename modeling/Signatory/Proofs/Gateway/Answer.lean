import Signatory.Proofs.Gateway.Run

/-! What a gateway answers. Each call of a run has an answer beside the state that it leaves. A submission answers as
the engine does, and a wait for a result ends with the first look at it. -/

namespace Signatory
set_option autoImplicit false

/-- The result of a transaction as the ledger tells it. -/
def Ledger.readResult (l : Ledger) (ticket : Ticket) : Except Error TransactionResult := do
  (← Engine.reject (l.resultOf ticket)).toResult

theorem Ledger.readResult_of_find? {l : Ledger} {id : Bytes} {stored : StoredResult}
    (h : l.results.find? id = some stored) : l.readResult id = stored.toResult := by
  simp only [readResult, resultOf, result, h]
  rfl

namespace Embedded
open Outcome

inductive Answer where
  | done
  | address (a : Bytes)
  | identifier (ticket : Ticket)
  | value (v : Json)
  | account (a : AccountRecord)
  | transaction (t : LooseTransaction)
  | result (r : TransactionResult)
  | block (b : Block)
  | batches (bs : List BlockEvents)
  | collection (c : Collection)
  | names (ns : List Text)

variable {μ : Type} (G : Embedded μ)

def Question.answer (c : Client (State μ)) : Question → Except Error Answer
  | account address => (G.gateway.account address c).1.map .account
  | accountOf address => (G.gateway.accountOf address c).1.map .account
  | transaction id => (G.gateway.transaction id c).1.map .transaction
  | result ticket wait timeout => (G.gateway.result ticket wait timeout c).1.map .result
  | latestBlock => (G.gateway.latestBlock c).1.map .block
  | blockNamed id => (G.gateway.blockNamed id c).1.map .block
  | blockAt height => (G.gateway.blockAt height c).1.map .block
  | events type first last => (G.gateway.events type first last c).1.map .batches
  | collection id => (G.gateway.collection id c).1.map .collection
  | snapshotNames => (Embedded.snapshotNames c).1.map .names

def Operation.answer (c : Client (State μ)) : Operation → Except Error Answer
  | createAccount keys => (Embedded.createAccount keys c).1.map .address
  | submit e => (G.gateway.submit e c).1.map .identifier
  | submitLoose e => (G.gateway.submitLoose e c).1.map .identifier
  | script code arguments => (G.gateway.script code arguments c).1.map .value
  | createSnapshot name => (Embedded.createSnapshot name c).1.map fun _ => .done
  | loadSnapshot name => (Embedded.loadSnapshot name c).1.map fun _ => .done
  | ask question => question.answer G c

def answer (s : State μ) (call : Call) : Except Error Answer :=
  call.operation.answer G (call.surroundings.withBackend s)

/-- The answers to the calls of a run, in their order. -/
def answers (s : State μ) : List Call → List (Except Error Answer)
  | [] => []
  | call :: calls => G.answer s call :: answers (G.perform s call) calls

/-- What a submission has to run, if it is one. -/
def Operation.submission? (l : Ledger) : Operation → Option (Except Error Engine.Admission)
  | submit e => some (G.admission e l)
  | submitLoose e => some (G.admissionLoose e l)
  | _ => none

theorem run_concat (s : State μ) (calls : List Call) (call : Call) :
    G.run s (calls ++ [call]) = G.perform (G.run s calls) call := by
  simp only [run, List.foldl_append, List.foldl_cons, List.foldl_nil]

variable {G}

theorem submission?_admitted {operation : Operation} {l : Ledger} {x : Engine.Admission}
    (h : operation.submission? G l = some (.ok x)) : x.Admitted G.engine.suite l := by
  cases operation with
  | submit e => exact admission_admitted (Option.some.inj h)
  | submitLoose e => exact admissionLoose_admitted (Option.some.inj h)
  | _ => cases h

theorem attempt_of_submission? {s : State μ} {call : Call} {admission : Except Error Engine.Admission}
    (h : call.operation.submission? G s.ledger = some admission) :
    G.answer s call = ((G.engine.attempt s.engine admission).1.map .id).map .identifier ∧
      G.perform s call = { s with engine := (G.engine.attempt s.engine admission).2 } := by
  obtain ⟨surroundings, operation⟩ := call
  cases operation with
  | submit e =>
    obtain rfl := Option.some.inj h
    obtain ⟨hanswer, hbackend⟩ := G.submit_eq_attempt e (surroundings.withBackend s)
    rw [answer, perform, Operation.answer, Operation.after, gateway_submit_eq]
    exact ⟨congrArg (fun r => (r.map Ticket.id).map Answer.identifier) hanswer, hbackend⟩
  | submitLoose e =>
    obtain rfl := Option.some.inj h
    obtain ⟨hanswer, hbackend⟩ := G.submitLoose_eq_attempt e (surroundings.withBackend s)
    rw [answer, perform, Operation.answer, Operation.after, gateway_submitLoose_eq]
    exact ⟨congrArg (fun r => (r.map Ticket.id).map Answer.identifier) hanswer, hbackend⟩
  | _ => cases h

/-- Whether a submission was accepted. -/
def isIdentifier : Except Error Answer → Bool
  | .ok (.identifier (.id _)) => true
  | _ => false

theorem isIdentifier_iff {a : Except Error Answer} :
    isIdentifier a = true ↔ ∃ id : Bytes, a = .ok (.identifier id) := by
  unfold isIdentifier
  split
  · simp
  · rename_i hne
    simpa using hne

/-- Only a submission gives an identifier. -/
theorem submission?_of_identifier {s : State μ} {call : Call} {id : Bytes}
    (h : G.answer s call = .ok (.identifier id)) :
    ∃ x, call.operation.submission? G s.ledger = some (.ok x) ∧ (G.engine.attempt s.engine (.ok x)).1 = .ok id := by
  have hmap {α : Type} (r : Except Error α) {f : α → Answer} (hf : ∀ x, f x ≠ .identifier id) :
      r.map f ≠ .ok (.identifier id) := by
    cases r with
    | error error => exact nofun
    | ok x => exact fun hx => hf x (Except.ok.inj hx)
  cases hsubmission : call.operation.submission? G s.ledger with
  | none =>
    -- No other operation answers so.
    obtain ⟨surroundings, operation⟩ := call
    cases operation with
    | submit e => cases hsubmission
    | submitLoose e => cases hsubmission
    | ask question =>
      simp only [answer, Operation.answer] at h
      cases question <;>
        · simp only [Question.answer] at h
          exact absurd h (hmap _ fun _ => nofun)
    | _ =>
      simp only [answer, Operation.answer] at h
      exact absurd h (hmap _ fun _ => nofun)
  | some admission =>
    rw [(attempt_of_submission? hsubmission).1] at h
    cases admission with
    | error error => cases h
    | ok x =>
      refine ⟨x, rfl, ?_⟩
      generalize (G.engine.attempt s.engine (.ok x)).1 = answer at h ⊢
      cases answer with
      | error error => cases h
      | ok other =>
        obtain rfl : other = id := Ticket.id.inj (Answer.identifier.inj (Except.ok.inj h))
        rfl

theorem readResult_sealed {l : Ledger} {ticket : Ticket} {r : TransactionResult} (h : l.readResult ticket = .ok r) :
    r.status = .sealed := by
  obtain ⟨stored, _, h⟩ := bind_eq_ok.mp h
  obtain ⟨events, _, h⟩ := bind_eq_ok.mp h
  obtain rfl := pure_eq_ok.mp h
  rfl

/-- A result that is there is final, so that a wait for it fetches it once, unless it is cancelled before. -/
theorem result_eq (ticket : Ticket) (wait : Bool) (timeout : Option Number) (c : Client (State μ)) :
    (G.gateway.result ticket wait timeout c).1 =
      if wait then do
        let _ ← timeout.mapM fun length => Client.computed (c.timeline.now.add? length)
        if (Client.isCancelled c).1 then .error (.cancelled ticket 0) else c.backend.ledger.readResult ticket
      else c.backend.ledger.readResult ticket := by
  cases wait with
  | false => rfl
  | true =>
    have hworld : (G.gateway.result ticket true timeout c).1 =
        (Poll.waitForSeal (Client.world G.gateway.fetchResult) Number.render ⟨G.pollInterval, timeout⟩ ticket
          Client.patience c).1 := rfl
    rw [hworld, Poll.waitForSeal]
    have hahead : (timeout.mapM ((Client.world G.gateway.fetchResult).ahead · c)) =
        timeout.mapM fun length => Client.computed (c.timeline.now.add? length) := rfl
    rw [hahead]
    cases timeout.mapM fun length => Client.computed (c.timeline.now.add? length) with
    | error error => rfl
    | ok deadline =>
      have hpatience : Client.patience = 999999 + 1 := rfl
      have hbackend := Client.isCancelled_backend c
      rcases hcancelled : Client.isCancelled c with ⟨_ | _, c'⟩
      · rw [hcancelled] at hbackend
        have hfetch : (Client.world G.gateway.fetchResult).fetch ticket c' =
            (c'.backend.ledger.readResult ticket, c') := rfl
        simp only [hpatience, Poll.look_of_terminal hcancelled hfetch fun r hr => by rw [readResult_sealed hr]; rfl]
        rw [hbackend]
        rfl
      · rw [hpatience]
        unfold Poll.look
        have hlook : (Client.world G.gateway.fetchResult).isCancelled c = (true, c') := hcancelled
        simp only [hlook]
        rfl

theorem readResult_of_result {ticket : Ticket} {wait : Bool} {timeout : Option Number} {c : Client (State μ)}
    {r : TransactionResult} (h : (G.gateway.result ticket wait timeout c).1 = .ok r) :
    c.backend.ledger.readResult ticket = .ok r := by
  rw [result_eq] at h
  cases wait with
  | false => exact h
  | true =>
    obtain ⟨_, _, h⟩ := bind_eq_ok.mp h
    split at h
    · cases h
    · exact h

end Embedded

end Signatory
