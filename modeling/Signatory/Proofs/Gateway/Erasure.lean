import Signatory.Proofs.Gateway.Snapshot

/-! What leaves no trace. Questions, scripts and refused submissions can be struck out of a run of a runtime that
remembers nothing: all other calls are answered as before, and the ledger ends as it did. A submission that fails in
another way does leave its traces, and stays. -/

namespace Signatory
set_option autoImplicit false
open Outcome

variable {μ : Type}

/-- A submission that fails so was incomplete, was refused, or has crashed the runtime. -/
def Error.refuses : Error → Bool
  | incompleteUnprepared | incomplete _ | rejected _ | response _ _ => true
  | _ => false

namespace Engine

variable (E : Engine μ)

/-- A clock without the time is no refusal. -/
def ClockNeverRefuses : Prop := ∀ i error, E.clock i = .error error → error.refuses = false

variable {E} {s s' : State μ}

theorem Sealing.not_refuses (hclock : E.ClockNeverRefuses) {x : Admission} {emitted : List Json} {message : Text}
    {error : Error} (h : Sealing E s x emitted message (.error error) s') : error.refuses = false := by
  cases h with
  | noKey hbump => obtain rfl | rfl := bump_failure hbump <;> rfl
  | noTime _ htime => exact hclock _ _ htime
  | noEvents _ _ hevents => obtain rfl | rfl := StoredEvent.ofEmitted_failure hevents <;> rfl

theorem attempt_of_refuses (hclock : E.ClockNeverRefuses) {admission : Except Error Admission} {error : Error}
    (h : (E.attempt s admission).1 = .error error) (hrefuses : error.refuses = true) :
    (E.attempt s admission).2.ledger = s.ledger ∧ (E.attempt s admission).2.readings = s.readings := by
  cases admission with
  | error _ => exact ⟨rfl, rfl⟩
  | ok x =>
    have hrunning := attempt_running E s x
    generalize E.attempt s (.ok x) = result at h hrunning ⊢
    obtain ⟨answer, s'⟩ := result
    obtain rfl : answer = .error error := h
    cases hrunning with
    | crashed _ => exact ⟨rfl, rfl⟩
    | failed _ hsealing =>
      rw [hsealing.not_refuses hclock] at hrefuses
      cases hrefuses
    | done _ hsealing =>
      rw [hsealing.not_refuses hclock] at hrefuses
      cases hrefuses

end Engine

namespace Embedded

variable (G : Embedded μ)

def transcript (s : State μ) (calls : List Call) : List (Call × Except Error Answer) :=
  calls.zip (G.answers s calls)

theorem transcript_cons (s : State μ) (call : Call) (calls : List Call) :
    G.transcript s (call :: calls) = (call, G.answer s call) :: G.transcript (G.perform s call) calls := rfl

/-- A question, a script, and a submission that is refused. -/
def traceless (entry : Call × Except Error Answer) : Bool :=
  match entry.1.operation, entry.2 with
  | .ask _, _ => true
  | .script _ _, _ => true
  | .submit _, .error error => error.refuses
  | .submitLoose _, .error error => error.refuses
  | _, _ => false

/-- States that differ in what the runtime remembers, and in nothing else. -/
structure State.Alike (s s' : State μ) : Prop where
  ledger : s.ledger = s'.ledger
  readings : s.engine.readings = s'.engine.readings
  snapshots : s.snapshots = s'.snapshots

variable {G} {s s' : State μ}

theorem State.Alike.refl (s : State μ) : s.Alike s := ⟨rfl, rfl, rfl⟩

theorem State.Alike.trans {s'' : State μ} (h : s.Alike s') (h' : s'.Alike s'') : s.Alike s'' :=
  ⟨h.ledger.trans h'.ledger, h.readings.trans h'.readings, h.snapshots.trans h'.snapshots⟩

theorem State.Alike.perform_still (hR : G.engine.runtime.Memoryless) (h : s.Alike s') {call : Call}
    (hcall : call.operation.movesSnapshots = false) :
    G.answer s call = G.answer s' call ∧ (G.perform s call).Alike (G.perform s' call) := by
  have hclock : G.engine.clock s.engine.readings = G.engine.clock s'.engine.readings :=
    congrArg G.engine.clock h.readings
  obtain ⟨hledger, hreadings⟩ := perform_of_ledger hR hclock h.ledger hcall
  rw [h.readings, Nat.add_right_cancel_iff] at hreadings
  refine ⟨?_, hledger, hreadings, ?_⟩
  · by_cases hnames : call.operation = .ask .snapshotNames
    · obtain ⟨surroundings, operation⟩ := call
      obtain rfl : operation = .ask .snapshotNames := hnames
      exact congrArg (fun kept : OrderedMap Text Ledger => Except.ok (Answer.names (kept.keys.mergeSort Text.le)))
        h.snapshots
    · exact answer_of_ledger hR hclock h.ledger hcall hnames
  · rw [perform_snapshots, perform_snapshots, h.snapshots, h.ledger]

theorem State.Alike.perform (hR : G.engine.runtime.Memoryless) (h : s.Alike s') (call : Call) :
    G.answer s call = G.answer s' call ∧ (G.perform s call).Alike (G.perform s' call) := by
  obtain ⟨surroundings, operation⟩ := call
  cases operation with
  | createSnapshot name =>
    refine ⟨rfl, h.ledger, h.readings, ?_⟩
    rw [perform_snapshots, perform_snapshots, h.snapshots, h.ledger]
  | loadSnapshot name =>
    rw [answer_loadSnapshot, answer_loadSnapshot, perform_eq, perform_eq, Operation.effect, Operation.effect,
      h.snapshots]
    cases s'.snapshots.find? name with
    | none => exact ⟨rfl, h⟩
    | some l => exact ⟨rfl, rfl, h.readings, rfl⟩
  | _ => exact h.perform_still hR rfl

theorem perform_of_refuses (hclock : G.engine.ClockNeverRefuses) {call : Call} {admission : Except Error Engine.Admission}
    (hs : call.operation.submission? G s.ledger = some admission) {error : Error}
    (hanswer : G.answer s call = .error error) (hrefuses : error.refuses = true) : (G.perform s call).Alike s := by
  obtain ⟨hattempt, hstate⟩ := attempt_of_submission? hs
  rw [hattempt] at hanswer
  cases hresult : (G.engine.attempt s.engine admission).1 with
  | ok id =>
    rw [hresult] at hanswer
    cases hanswer
  | error other =>
    rw [hresult] at hanswer
    obtain rfl : other = error := Except.error.inj hanswer
    obtain ⟨hledger, hreadings⟩ := Engine.attempt_of_refuses hclock hresult hrefuses
    rw [hstate]
    exact ⟨hledger, hreadings, rfl⟩

theorem perform_of_traceless (hclock : G.engine.ClockNeverRefuses) {call : Call}
    (h : traceless (call, G.answer s call) = true) : (G.perform s call).Alike s := by
  obtain ⟨surroundings, operation⟩ := call
  generalize hanswer : G.answer s ⟨surroundings, operation⟩ = answer at h
  cases operation with
  | ask question =>
    rw [perform_eq]
    exact .refl s
  | script code arguments =>
    rw [perform_eq]
    exact ⟨rfl, rfl, rfl⟩
  | submit e =>
    cases answer with
    | error error => exact perform_of_refuses hclock rfl hanswer h
    | ok _ => cases h
  | submitLoose e =>
    cases answer with
    | error error => exact perform_of_refuses hclock rfl hanswer h
    | ok _ => cases h
  | _ => cases h

/-- The part of a run that may leave traces, with the answers that were given. -/
def traced (G : Embedded μ) (s : State μ) (calls : List Call) : List (Call × Except Error Answer) :=
  (G.transcript s calls).filter (!traceless ·)

theorem traced_of_alike (hR : G.engine.runtime.Memoryless) (hclock : G.engine.ClockNeverRefuses) (h : s.Alike s')
    (calls : List Call) :
    G.transcript s' ((G.traced s calls).map Prod.fst) = G.traced s calls ∧
      (G.run s' ((G.traced s calls).map Prod.fst)).Alike (G.run s calls) := by
  -- on the run in full; a call that is struck out leaves its state alike to the other run's, which stands still
  induction calls generalizing s s' with
  | nil => exact ⟨rfl, ⟨h.ledger.symm, h.readings.symm, h.snapshots.symm⟩⟩
  | cons call calls ih =>
    have htraced : G.traced s (call :: calls) =
        if traceless (call, G.answer s call) then G.traced (G.perform s call) calls
        else (call, G.answer s call) :: G.traced (G.perform s call) calls := by
      rw [traced, transcript_cons, List.filter_cons]
      cases traceless (call, G.answer s call) <;> rfl
    rw [htraced]
    split
    · rename_i hless
      exact ih ((perform_of_traceless hclock hless).trans h)
    · obtain ⟨hanswer, hafter⟩ := h.perform hR call
      obtain ⟨htranscript, hrun⟩ := ih hafter
      refine ⟨?_, hrun⟩
      rw [List.map_cons, transcript_cons, htranscript, hanswer]

/-- Questions, scripts and refused submissions can be struck out of a run: all other calls are answered as they were
among them, and the ledgers, live and kept, end as they did. -/
theorem traceless_erased (hR : G.engine.runtime.Memoryless) (hclock : G.engine.ClockNeverRefuses) (s : State μ)
    (calls : List Call) :
    let kept := G.traced s calls
    G.transcript s (kept.map Prod.fst) = kept ∧
      (G.run s (kept.map Prod.fst)).ledger = (G.run s calls).ledger ∧
      (G.run s (kept.map Prod.fst)).snapshots = (G.run s calls).snapshots := by
  intro kept
  obtain ⟨htranscript, hrun⟩ := traced_of_alike hR hclock (.refl s) calls
  exact ⟨htranscript, hrun.ledger, hrun.snapshots⟩

/-- A runtime that counts its runs, and crashes at transactions with an empty script. -/
def tripping : Runtime Nat where
  execute t l m := if t.script == .bytes [] then (.crashed "empty", .empty, m + 1) else (.done [], l.accounts, m + 1)
  evaluate _ _ l m := (.crashed "no scripts", l, m + 1)

/-- Two submissions are accepted, amid others that are not; the clock moves on with each reading. -/
theorem traceless_erased_amid :
    let G : Embedded Nat :=
      { trusting tripping with engine := { (trusting tripping).engine with clock := fun n => .ok ⟨n, some 0⟩ } }
    let submission (e : Envelope) : Call := ⟨.start (), .submit e⟩
    let calls : List Call := [
      submission { serviceEnvelope tripping 0 with script := [] }, ⟨.start (), .script [] []⟩,
      submission (serviceEnvelope tripping 7), submission (serviceEnvelope tripping 0),
      ⟨.start (), .ask .latestBlock⟩, submission (serviceEnvelope tripping 0),
      submission { serviceEnvelope tripping 1 with gasLimit := none }, ⟨.start (), .createSnapshot "once"⟩,
      submission (serviceEnvelope tripping 1)]
    let kept := G.traced (trustingStart tripping 0) calls
    G.engine.runtime.Memoryless ∧ G.engine.ClockNeverRefuses ∧
    G.answer (trustingStart tripping 0) (submission { serviceEnvelope tripping 0 with script := [] }) =
      .error (.rejected (.execution "empty")) ∧
    kept.map (fun entry => isIdentifier entry.2) = [true, false, true] ∧
    G.transcript (trustingStart tripping 0) (kept.map Prod.fst) = kept ∧
    (G.run (trustingStart tripping 0) (kept.map Prod.fst)).ledger = (G.run (trustingStart tripping 0) calls).ledger := by
  intro G submission calls kept
  have hR : G.engine.runtime.Memoryless := by
    refine ⟨fun t l m m' => ?_, fun _ _ _ _ _ => rfl⟩
    simp only [G, trusting, tripping]
    split <;> exact ⟨rfl, rfl⟩
  have hclock : G.engine.ClockNeverRefuses := fun _ _ h => nomatch h
  obtain ⟨htranscript, hledger, _⟩ := traceless_erased hR hclock (trustingStart tripping 0) calls
  exact ⟨hR, hclock, rfl, by decide +kernel, htranscript, hledger⟩

end Embedded

end Signatory
