import Signatory.Proofs.Gateway.Events

/-! Finality. Between two times that a ledger is brought back, a gateway adds to the past of its ledger and takes nothing
from it; so what is told of an accepted transaction once is told of it from then on. -/

namespace Signatory
set_option autoImplicit false
open Outcome

variable {μ : Type}

namespace Embedded

variable (G : Embedded μ)

def Operation.loads : Operation → Bool
  | loadSnapshot _ => true
  | _ => false

/-- The transaction that an operation submits, without the roles of its envelope. -/
def Operation.transaction? : Operation → Option LooseTransaction
  | submit e => some e.toTransaction.loosen
  | submitLoose e => some e.toLooseTransaction
  | _ => none

/-- What a client is told of a transaction, and will be told again: the transaction itself, and one result. -/
structure Settled (c : Client (State μ)) (id : Bytes) (t : LooseTransaction) (r : TransactionResult) : Prop where
  transaction : (G.gateway.transaction id c).1 = .ok t
  result : ∀ (wait : Bool) (timeout : Option Number),
    (wait = true → (Client.isCancelled c).1 = false ∧ ∀ length ∈ timeout, (c.timeline.now.add? length).isSome) →
    (G.gateway.result id wait timeout c).1 = .ok r

variable {G} {s : State μ}

theorem Starts.anchored (h : G.Starts s) {l : Ledger} (hl : s.Keeps l) : G.engine.Anchored l := by
  obtain ⟨service, memory, hstart, rfl⟩ := h.opened hl
  exact Engine.anchored_start hstart

theorem anchored_run (hs : G.Starts s) (calls : List Call) : G.engine.Anchored (G.run s calls).ledger := by
  apply G.run_keeps (I := fun _ l => G.engine.Anchored l) (n := 0) _ _ _ _ calls _ .live
  · exact fun _ _ h => h
  · exact fun _ _ _ h => h.of_accounts _ _
  · exact fun _ _ admission _ h => Engine.anchored_attempt h admission
  · exact fun _ hl => hs.anchored hl

theorem extends_perform (h : G.engine.Anchored s.ledger) {call : Call} (hcall : call.operation.loads = false)
    (hfree : G.engine.suite.CollisionFree (G.perform s call).ledger.Digests) :
    s.ledger.Extends (G.perform s call).ledger := by
  rw [perform_eq] at hfree ⊢
  generalize call.operation = operation at hcall hfree ⊢
  cases operation with
  | createAccount keys => exact .of_accounts _ _ _
  | submit e => exact Engine.extends_attempt (fun _ => admission_admitted) h hfree
  | submitLoose e => exact Engine.extends_attempt (fun _ => admissionLoose_admitted) h hfree
  | loadSnapshot name => cases hcall
  | _ => exact .refl _

theorem extends_run (hs : G.Starts s) (calls : List Call) {later : List Call}
    (hlater : ∀ call ∈ later, call.operation.loads = false)
    (hfree : G.engine.suite.CollisionFree (G.run s (calls ++ later)).ledger.Digests) :
    (G.run s calls).ledger.Extends (G.run s (calls ++ later)).ledger := by
  -- from the end: digests that do not collide at the last ledger did not collide before
  induction later using List.reverseRecOn with
  | nil =>
    rw [List.append_nil]
    exact .refl _
  | append_singleton later call ih =>
    rw [List.forall_mem_append, List.forall_mem_singleton] at hlater
    rw [← List.append_assoc, run_concat] at hfree ⊢
    have hstep := extends_perform (anchored_run hs (calls ++ later)) hlater.2 hfree
    have hbefore := ih hlater.1 fun p q hp hq => hfree p q (hstep.digests hp) (hstep.digests hq)
    exact hbefore.trans hstep

theorem submission?_transaction {operation : Operation} {l : Ledger} {x : Engine.Admission}
    (h : operation.submission? G l = some (.ok x)) : operation.transaction? = some x.transaction := by
  cases operation with
  | submit e =>
    obtain ⟨_, _, h⟩ := bind_eq_ok.mp (Option.some.inj h)
    rw [Engine.accept_transaction h]
    rfl
  | submitLoose e =>
    obtain ⟨_, _, h⟩ := bind_eq_ok.mp (Option.some.inj h)
    rw [Engine.acceptLoose_transaction h]
    rfl
  | _ => cases h

theorem regular?_of_submit {e : Envelope} {t : LooseTransaction}
    (h : (Operation.submit e).transaction? = some t) : LooseEnvelope.regular? ⟨t, none⟩ = some { e with roles := none } := by
  obtain rfl := Option.some.inj h
  rw [LooseEnvelope.regular?, Transaction.regular?_loosen]
  rfl

theorem settled_of_find? {c : Client (State μ)} {id : Bytes} {t : LooseTransaction} {stored : StoredResult}
    {r : TransactionResult} (ht : c.backend.ledger.transactions.find? id = some t)
    (hstored : c.backend.ledger.results.find? id = some stored) (hr : stored.toResult = .ok r) : G.Settled c id t r where
  transaction := by
    have hquery : (G.gateway.transaction id c).1 = Engine.reject (c.backend.ledger.transaction id) := rfl
    rw [hquery, Ledger.transaction, ht]
    rfl
  result wait timeout hwait := by
    have hread : c.backend.ledger.readResult id = .ok r := by
      rw [Ledger.readResult_of_find? hstored, hr]
    rw [result_eq, hread]
    cases wait with
    | false => rfl
    | true =>
      obtain ⟨hcancelled, htimeout⟩ := hwait rfl
      rw [hcancelled]
      cases timeout with
      | none => rfl
      | some length =>
        obtain ⟨deadline, hdeadline⟩ := Option.isSome_iff_exists.mp (htimeout length rfl)
        rw [Option.mapM_some, hdeadline]
        rfl

/-- What an accepted transaction has stored when its events can be read: its block, itself and its result. -/
theorem exists_stored {call : Call} {id : Bytes} {x : Engine.Admission}
    (hsubmission : call.operation.submission? G s.ledger = some (.ok x))
    (hattempt : (G.engine.attempt s.engine (.ok x)).1 = .ok id)
    (hreadable : ∀ v ∈ (G.engine.execution s.engine x).outcome.emitted, Readable v) :
    ∃ block stored r, (G.perform s call).ledger.blocks = s.ledger.blocks ++ [block] ∧
      (G.perform s call).ledger.transactions.find? id = some x.transaction ∧
      (G.perform s call).ledger.results.find? id = some stored ∧ stored.toResult = .ok r ∧
      r.status = .sealed ∧ r.block = some block.id := by
  obtain ⟨rfl, accounts, time, events, hevents, hafter⟩ := Engine.sealed_of_attempt hattempt
  have hledger : (G.perform s call).ledger = G.engine.sealed s.ledger x accounts time events
      (G.engine.execution s.engine x).outcome.message := by
    rw [(attempt_of_submission? hsubmission).2]
    exact hafter
  have hemitted : StoredEvent.ofEmitted x.id 0 (G.engine.execution s.engine x).outcome.emitted =
      .ok ((G.engine.execution s.engine x).events.map Event.stored) := Execution.stored_events hreadable
  obtain rfl := Except.ok.inj (hevents.symm.trans hemitted)
  rw [hledger]
  exact ⟨_, _, _, rfl, OrderedMap.find?_insert_self, OrderedMap.find?_insert_self,
    StoredResult.toResult_stored _ _ _ _, rfl, rfl⟩

/-- As long as no ledger is brought back, the chain of a gateway only goes on and all that is stored stays as it is; so
an accepted transaction whose events can be read is found from then on without its roles, under its own identifier, and
sealed by one result, which names the block that was added for it. -/
theorem history_final (hs : G.Starts s) (calls : List Call) :
    (∀ later : List Call, (∀ call ∈ later, call.operation.loads = false) →
      G.engine.suite.CollisionFree (G.run s (calls ++ later)).ledger.Digests →
      (G.run s calls).ledger.Extends (G.run s (calls ++ later)).ledger) ∧
    ∀ (call : Call) (id : Bytes), G.answer (G.run s calls) call = .ok (.identifier id) →
      ∃ t, call.operation.transaction? = some t ∧ t.id G.engine.suite = .ok id ∧
        (∀ e, call.operation = .submit e → LooseEnvelope.regular? ⟨t, none⟩ = some { e with roles := none }) ∧
        ((∀ v ∈ (G.engine.runtime.execute t (G.run s calls).ledger (G.run s calls).engine.memory).1.emitted, Readable v) →
          ∃ block r, (G.run s (calls ++ [call])).ledger.blocks = (G.run s calls).ledger.blocks ++ [block] ∧
            r.status = .sealed ∧ r.block = some block.id ∧
            ∀ later : List Call, (∀ call ∈ later, call.operation.loads = false) →
              G.engine.suite.CollisionFree (G.run s (calls ++ call :: later)).ledger.Digests →
              ∀ c : Client (State μ), c.backend = G.run s (calls ++ call :: later) → G.Settled c id t r) := by
  refine ⟨fun later hlater hfree => extends_run hs calls hlater hfree, ?_⟩
  intro call id hanswer
  obtain ⟨x, hsubmission, hattempt⟩ := submission?_of_identifier hanswer
  have hsubmitted := submission?_transaction hsubmission
  refine ⟨x.transaction, hsubmitted, ?_, ?_, ?_⟩
  · rw [(submission?_admitted hsubmission).named, Engine.id_of_attempt hattempt]
  · intro e he
    rw [he] at hsubmitted
    exact regular?_of_submit hsubmitted
  · intro hreadable
    obtain ⟨block, stored, r, hblocks, ht, hstored, hr, hstatus, hblock⟩ :=
      exists_stored hsubmission hattempt hreadable
    refine ⟨block, r, (run_concat G s calls call).symm ▸ hblocks, hstatus, hblock, ?_⟩
    intro later hlater hfree c hc
    have hsplit : calls ++ call :: later = (calls ++ [call]) ++ later := by
      rw [List.append_assoc, List.singleton_append]
    rw [hsplit] at hfree hc
    have hextends := extends_run hs (calls ++ [call]) hlater hfree
    rw [run_concat, ← hc] at hextends
    exact settled_of_find? (hextends.transactions _ _ ht) (hextends.results _ _ hstored) hr

/-- A transaction with two events is found again after the same was refused and the next one was sealed. -/
theorem history_final_announced :
    let G := trusting announcing
    let s := trustingStart announcing ()
    let calls : List Call := [⟨.start (), .createSnapshot "once"⟩]
    let call : Call := ⟨.start (), .submit (serviceEnvelope announcing 0)⟩
    let later : List Call := [call, ⟨.start (), .createAccount []⟩, ⟨.start (), .submit (serviceEnvelope announcing 1)⟩]
    let after := G.run s (calls ++ call :: later)
    let c : Client (State Unit) := .start after
    G.Starts s ∧ (∀ call ∈ later, call.operation.loads = false) ∧ after.ledger.blocks.length = 3 ∧
    (G.run s calls).ledger.Extends after.ledger ∧
    ∃ id : Bytes, ∃ block t r, G.answer (G.run s calls) call = .ok (.identifier id) ∧
      (G.run s (calls ++ [call])).ledger.blocks = (G.run s calls).ledger.blocks ++ [block] ∧
      (G.gateway.transaction id c).1 = .ok t ∧
      LooseEnvelope.regular? ⟨t, none⟩ = some (serviceEnvelope announcing 0) ∧
      (G.gateway.result id true none c).1 = .ok r ∧ r.status = .sealed ∧ r.block = some block.id := by
  intro G s calls call later after c
  have hs : G.Starts s := ⟨nobodysKey, (), rfl, rfl⟩
  have hrest : ∀ other ∈ call :: later, other.operation.loads = false := by decide
  have hlater : ∀ call ∈ later, call.operation.loads = false := (List.forall_mem_cons.mp hrest).2
  have hfree (inputs : Bytes → Prop) : G.engine.suite.CollisionFree inputs := fun _ _ _ _ h => h
  have hreadable (t : LooseTransaction) (l : Ledger) (m : Unit) :
      ∀ v ∈ (announcing.execute t l m).1.emitted, Readable v := announcing_legible t l m _ _ _ rfl
  have haccepted : isIdentifier (G.answer (G.run s calls) call) = true := by decide +kernel
  obtain ⟨id, hanswer⟩ := isIdentifier_iff.mp haccepted
  obtain ⟨hextends, hsettled⟩ := history_final hs calls
  obtain ⟨t, _, _, hregular, hfinal⟩ := hsettled call id hanswer
  obtain ⟨block, r, hblocks, hstatus, hblock, hall⟩ := hfinal (hreadable t _ _)
  have hstart (left : State Unit) : (Client.start left).backend = left := rfl
  have hc := hall later hlater (hfree _) c (hstart after)
  have hpast := hextends (call :: later) hrest (hfree _)
  refine ⟨hs, hlater, by decide +kernel, hpast, id, block, t, r, hanswer, hblocks, hc.transaction, hregular _ rfl, ?_,
    hstatus, hblock⟩
  apply hc.result
  exact fun _ => ⟨rfl, nofun⟩

end Embedded

end Signatory
