import Signatory.Proofs.Gateway.Answer
import Signatory.Proofs.Gateway.Replay
import Signatory.Proofs.Json.Canonical

/-! Kept ledgers. What is kept under a name stays until the name is used again, and bringing it back makes the ledger
what it was. All that a gateway does afterwards depends on the ledger alone, when its runtime remembers nothing and its
clock stands still. -/

namespace Signatory
set_option autoImplicit false

variable {μ : Type}

/-- What is remembered changes nothing. -/
structure Runtime.Memoryless (R : Runtime μ) : Prop where
  execute : ∀ t l m m', (R.execute t l m).1 = (R.execute t l m').1 ∧ (R.execute t l m).2.1 = (R.execute t l m').2.1
  evaluate : ∀ script arguments l m m',
    (R.evaluate script arguments l m).1 = (R.evaluate script arguments l m').1

theorem Runtime.null_memoryless : null.Memoryless := ⟨fun _ _ _ _ => ⟨rfl, rfl⟩, fun _ _ _ _ _ => rfl⟩

namespace Engine

variable (E : Engine μ)

def Timeless : Prop := ∀ i j, E.clock i = E.clock j

variable {E} {s s' : State μ}

theorem sealRun_of_ledger (hclock : E.clock s.readings = E.clock s'.readings) (h : s.ledger = s'.ledger)
    (proposer : Bytes) (t : LooseTransaction) (id : Bytes) (emitted : List Json) (message : Text) :
    (E.sealRun s proposer t id emitted message).1 = (E.sealRun s' proposer t id emitted message).1 ∧
    (E.sealRun s proposer t id emitted message).2.ledger = (E.sealRun s' proposer t id emitted message).2.ledger ∧
    (E.sealRun s proposer t id emitted message).2.readings + s'.readings =
      (E.sealRun s' proposer t id emitted message).2.readings + s.readings := by
  have hread : s.readings + 1 + s'.readings = s'.readings + 1 + s.readings := by omega
  unfold sealRun commitBlock
  rw [h]
  cases bump s'.ledger.accounts proposer t.keyIndex with
  | error error => exact ⟨rfl, h, Nat.add_comm _ _⟩
  | ok accounts =>
    simp only [hclock]
    cases E.clock s'.readings with
    | error error => exact ⟨rfl, rfl, hread⟩
    | ok time => cases StoredEvent.ofEmitted id 0 emitted <;> exact ⟨rfl, rfl, hread⟩

theorem attempt_of_ledger (hR : E.runtime.Memoryless) (hclock : E.clock s.readings = E.clock s'.readings)
    (h : s.ledger = s'.ledger) (admission : Except Error Admission) :
    (E.attempt s admission).1 = (E.attempt s' admission).1 ∧
      (E.attempt s admission).2.ledger = (E.attempt s' admission).2.ledger ∧
      (E.attempt s admission).2.readings + s'.readings = (E.attempt s' admission).2.readings + s.readings := by
  cases admission with
  | error error => exact ⟨rfl, h, Nat.add_comm _ _⟩
  | ok x =>
    have hexecute := hR.execute x.transaction s'.ledger s.memory s'.memory
    simp only [attempt]
    unfold run
    rw [h]
    rcases hran : E.runtime.execute x.transaction s'.ledger s.memory with ⟨outcome, left, memory⟩
    rcases hran' : E.runtime.execute x.transaction s'.ledger s'.memory with ⟨outcome', left', memory'⟩
    rw [hran, hran'] at hexecute
    obtain ⟨rfl, rfl⟩ : outcome = outcome' ∧ left = left' := hexecute
    cases outcome with
    | done emitted => exact sealRun_of_ledger (by exact hclock) (by rfl) _ _ _ _ _
    | failed reason => exact sealRun_of_ledger (by exact hclock) (by rfl) _ _ _ _ _
    | crashed reason => exact ⟨rfl, rfl, Nat.add_comm _ _⟩

theorem evaluate_of_ledger (hR : E.runtime.Memoryless) (h : s.ledger = s'.ledger) (script : Bytes)
    (arguments : List Json) : (E.evaluate s script arguments).1 = (E.evaluate s' script arguments).1 := by
  simp only [evaluate, h, hR.evaluate script arguments s'.ledger s.memory s'.memory]

end Engine

namespace Embedded
open Outcome

variable (G : Embedded μ)

/-- The name under which an operation keeps the ledger. -/
def Operation.captured? : Operation → Option Text
  | createSnapshot name => some name
  | _ => none

/-- The names used in a run, in their order. -/
def captured (calls : List Call) : List Text := calls.filterMap (·.operation.captured?)

theorem captured_cons (call : Call) (calls : List Call) :
    captured (call :: calls) = call.operation.captured?.toList ++ captured calls := by
  unfold captured
  rw [List.filterMap_cons]
  cases call.operation.captured? <;> rfl

def Operation.movesSnapshots : Operation → Bool
  | createSnapshot _ | loadSnapshot _ => true
  | _ => false

theorem perform_snapshots (s : State μ) (call : Call) :
    (G.perform s call).snapshots =
      match call.operation.captured? with
      | some name => s.snapshots.insert name s.ledger
      | none => s.snapshots := by
  rw [perform_eq]
  cases call.operation with
  | loadSnapshot name =>
    simp only [Operation.effect, Operation.captured?]
    cases s.snapshots.find? name <;> rfl
  | _ => rfl

theorem find?_snapshots_run {s : State μ} {calls : List Call} {name : Text} (h : name ∉ captured calls) :
    (G.run s calls).snapshots.find? name = s.snapshots.find? name := by
  induction calls generalizing s with
  | nil => rfl
  | cons call calls ih =>
    rw [captured_cons, List.mem_append, not_or] at h
    have hstep : (G.perform s call).snapshots.find? name = s.snapshots.find? name := by
      rw [perform_snapshots]
      cases hcaptured : call.operation.captured? with
      | none => rfl
      | some other =>
        have hne : other ≠ name := by
          rintro rfl
          exact h.1 (by rw [hcaptured]; exact List.mem_singleton_self other)
        simp only [OrderedMap.find?_insert, if_neg hne]
    exact (ih h.2).trans hstep

theorem mem_keys_snapshots_run {s : State μ} {calls : List Call} {name : Text} :
    name ∈ (G.run s calls).snapshots.keys ↔ name ∈ s.snapshots.keys ∨ name ∈ captured calls := by
  induction calls generalizing s with
  | nil => simp [run, captured]
  | cons call calls ih =>
    have hkeys : name ∈ (G.perform s call).snapshots.keys ↔
        name ∈ s.snapshots.keys ∨ call.operation.captured? = some name := by
      rw [perform_snapshots]
      cases call.operation.captured? with
      | none => simp
      | some other =>
        simp only [OrderedMap.mem_keys_insert, Option.some.injEq, eq_comm]
    have hrun : G.run s (call :: calls) = G.run (G.perform s call) calls := rfl
    rw [hrun, ih, hkeys, captured_cons, List.mem_append, Option.mem_toList, or_assoc]

theorem answer_loadSnapshot (s : State μ) (name : Text) (c : Client Unit) : G.answer s ⟨c, .loadSnapshot name⟩ =
    (s.snapshots.find? name).elim (.error (.snapshotNotFound name)) fun _ => .ok .done := by
  simp only [answer, Operation.answer, loadSnapshot, Client.onBackend, Client.withBackend]
  cases s.snapshots.find? name <;> rfl

theorem loadSnapshot_of_find? {s : State μ} {name : Text} {l : Ledger} (h : s.snapshots.find? name = some l)
    (c : Client Unit) : G.answer s ⟨c, .loadSnapshot name⟩ = .ok .done ∧
      (G.perform s ⟨c, .loadSnapshot name⟩).ledger = l := by
  rw [answer_loadSnapshot, perform_eq, Operation.effect, h]
  exact ⟨rfl, rfl⟩

theorem loadSnapshot_of_notMem {s : State μ} {name : Text} (h : name ∉ s.snapshots.keys) (c : Client Unit) :
    G.answer s ⟨c, .loadSnapshot name⟩ = .error (.snapshotNotFound name) ∧
      G.perform s ⟨c, .loadSnapshot name⟩ = s := by
  have hnone : s.snapshots.find? name = none := by
    cases hfind : s.snapshots.find? name with
    | none => rfl
    | some l => exact absurd (OrderedMap.mem_keys_iff.mpr ⟨l, hfind⟩) h
  rw [answer_loadSnapshot, perform_eq, Operation.effect, hnone]
  exact ⟨rfl, rfl⟩

section Alike

variable {G} (hR : G.engine.runtime.Memoryless) {s s' : State μ}
include hR

section Step

variable (hclock : G.engine.clock s.engine.readings = G.engine.clock s'.engine.readings)
include hclock

/-- The ledgers stay the same, and the clocks are read equally often. -/
theorem perform_of_ledger (h : s.ledger = s'.ledger) {call : Call} (hcall : call.operation.movesSnapshots = false) :
    (G.perform s call).ledger = (G.perform s' call).ledger ∧
      (G.perform s call).engine.readings + s'.engine.readings =
        (G.perform s' call).engine.readings + s.engine.readings := by
  rw [perform_eq, perform_eq]
  generalize call.operation = operation at hcall ⊢
  cases operation with
  | createAccount keys =>
    have haccounts : (Engine.createAccount s.engine (keys.map rawKey)).2.ledger =
        (Engine.createAccount s'.engine (keys.map rawKey)).2.ledger := by
      have h : s.engine.ledger = s'.engine.ledger := h
      simp only [Engine.createAccount, h]
    exact ⟨haccounts, Nat.add_comm _ _⟩
  | submit e =>
    rw [Operation.effect, Operation.effect, h]
    exact (Engine.attempt_of_ledger hR hclock h _).2
  | submitLoose e =>
    rw [Operation.effect, Operation.effect, h]
    exact (Engine.attempt_of_ledger hR hclock h _).2
  | script code arguments => exact ⟨h, Nat.add_comm _ _⟩
  | createSnapshot name => cases hcall
  | loadSnapshot name => cases hcall
  | ask question => exact ⟨h, Nat.add_comm _ _⟩

theorem answer_of_ledger (h : s.ledger = s'.ledger) {call : Call} (hcall : call.operation.movesSnapshots = false)
    (hnames : call.operation ≠ .ask .snapshotNames) : G.answer s call = G.answer s' call := by
  obtain ⟨surroundings, operation⟩ := call
  have hsubmission {admission : Except Error Engine.Admission}
      (hs : operation.submission? G s.ledger = some admission) :
      G.answer s ⟨surroundings, operation⟩ = G.answer s' ⟨surroundings, operation⟩ := by
    rw [(attempt_of_submission? hs).1, (attempt_of_submission? (h ▸ hs)).1,
      (Engine.attempt_of_ledger hR hclock h admission).1]
  have hquery {α : Type} (f : Ledger → Except Error α) (g : α → Answer) :
      ((query f (surroundings.withBackend s)).1.map g) = ((query f (surroundings.withBackend s')).1.map g) :=
    congrArg (fun l => (f l).map g) h
  cases operation with
  | createAccount keys =>
    have haddress : (Engine.createAccount s.engine (keys.map rawKey)).1 =
        (Engine.createAccount s'.engine (keys.map rawKey)).1 := by
      have h : s.engine.ledger = s'.engine.ledger := h
      simp only [Engine.createAccount, h]
    exact congrArg (fun a => Except.ok (Answer.address a)) haddress
  | submit e => exact hsubmission rfl
  | submitLoose e => exact hsubmission rfl
  | script code arguments =>
    have hvalue : (G.engine.evaluate s.engine code arguments).1 = (G.engine.evaluate s'.engine code arguments).1 :=
      Engine.evaluate_of_ledger hR h code arguments
    have hlogged (s : State μ) : (G.gateway.script code arguments (surroundings.withBackend s)).1 =
        (G.engine.evaluate s.engine code arguments).1 :=
      (loggingCrash_backend "script" (change fun s => G.engine.evaluate s code arguments) _).1
    simp only [answer, Operation.answer, hlogged, hvalue]
  | createSnapshot name => cases hcall
  | loadSnapshot name => cases hcall
  | ask question =>
    cases question with
    | result id wait timeout =>
      have hcancelled : (Client.isCancelled (surroundings.withBackend s)).1 =
          (Client.isCancelled (surroundings.withBackend s')).1 := by
        simp only [Client.isCancelled, Client.withBackend]
        split <;> rfl
      have hledger : (surroundings.withBackend s).backend.ledger = (surroundings.withBackend s').backend.ledger := h
      simp only [answer, Operation.answer, Question.answer, result_eq, hcancelled, hledger]
      rfl
    | snapshotNames => exact absurd rfl hnames
    | _ => exact hquery _ _

end Step

variable (hclock : G.engine.Timeless)
include hclock

theorem run_of_ledger (h : s.ledger = s'.ledger) {calls : List Call}
    (hcalls : ∀ call ∈ calls, call.operation.movesSnapshots = false) :
    (G.run s calls).ledger = (G.run s' calls).ledger := by
  induction calls generalizing s s' with
  | nil => exact h
  | cons call calls ih =>
    rw [List.forall_mem_cons] at hcalls
    exact ih (perform_of_ledger hR (hclock _ _) h hcalls.1).1 hcalls.2

theorem answers_of_ledger (h : s.ledger = s'.ledger) {calls : List Call}
    (hcalls : ∀ call ∈ calls, call.operation.movesSnapshots = false) {i : Nat} {call : Call}
    (hi : calls[i]? = some call) (hnames : call.operation ≠ .ask .snapshotNames) :
    (G.answers s calls)[i]? = (G.answers s' calls)[i]? := by
  induction calls generalizing s s' i with
  | nil => cases hi
  | cons first calls ih =>
    rw [List.forall_mem_cons] at hcalls
    cases i with
    | zero =>
      obtain rfl := Option.some.inj hi
      exact congrArg some (answer_of_ledger hR (hclock _ _) h hcalls.1 hnames)
    | succ i => exact ih (perform_of_ledger hR (hclock _ _) h hcalls.1).1 hcalls.2 hi

end Alike

theorem snapshotNames_of_run {s : State μ} (hs : s.snapshots = .empty) (calls : List Call) (c : Client Unit) :
    ∃ names, G.answer (G.run s calls) ⟨c, .ask .snapshotNames⟩ = .ok (.names names) ∧
      names.Pairwise (fun a b => Text.le a b = true) ∧ names.Nodup ∧ ∀ name, name ∈ names ↔ name ∈ captured calls := by
  have hperm := List.mergeSort_perm (G.run s calls).snapshots.keys Text.le
  refine ⟨(G.run s calls).snapshots.keys.mergeSort Text.le, rfl, List.pairwise_mergeSort Text.le_trans Text.le_total _,
    ?_, ?_⟩
  · exact hperm.nodup_iff.mpr (G.run s calls).snapshots.nodup
  · intro name
    rw [hperm.mem_iff, mem_keys_snapshots_run, hs]
    exact or_iff_right List.not_mem_nil

/-- What a name keeps is the ledger as it was then, and comes back however often it is asked for; all calls then end as
they would have ended at once and, but for the list of names, are answered so. A name under which nothing is kept is
refused. The list of names is sorted, and has each name once. -/
theorem snapshots_restore :
    (∀ (s : State μ) (name : Text) (between : List Call) (c c' : Client Unit), name ∉ captured between →
      let kept := G.perform s ⟨c, .createSnapshot name⟩
      let left := G.run kept between
      let restored := G.perform left ⟨c', .loadSnapshot name⟩
      kept.ledger = s.ledger ∧ G.answer left ⟨c', .loadSnapshot name⟩ = .ok .done ∧ restored.ledger = s.ledger ∧
      (G.engine.runtime.Memoryless → G.engine.Timeless → ∀ further : List Call,
        (∀ call ∈ further, call.operation.movesSnapshots = false) →
        (G.run restored further).ledger = (G.run kept further).ledger ∧
        ∀ (i : Nat) (call : Call), further[i]? = some call → call.operation ≠ .ask .snapshotNames →
          (G.answers restored further)[i]? = (G.answers kept further)[i]?)) ∧
    ∀ s : State μ, s.snapshots = .empty → ∀ (calls : List Call) (c : Client Unit),
      (∀ name, name ∉ captured calls →
        G.answer (G.run s calls) ⟨c, .loadSnapshot name⟩ = .error (.snapshotNotFound name) ∧
          G.perform (G.run s calls) ⟨c, .loadSnapshot name⟩ = G.run s calls) ∧
      ∃ names, G.answer (G.run s calls) ⟨c, .ask .snapshotNames⟩ = .ok (.names names) ∧
        names.Pairwise (fun a b => Text.le a b = true) ∧ names.Nodup ∧ ∀ name, name ∈ names ↔ name ∈ captured calls := by
  constructor
  · intro s name between c c' hbetween kept left restored
    have hfind : left.snapshots.find? name = some s.ledger := by
      rw [find?_snapshots_run G hbetween]
      exact OrderedMap.find?_insert_self
    obtain ⟨hanswer, hledger⟩ := loadSnapshot_of_find? G hfind c'
    refine ⟨rfl, hanswer, hledger, ?_⟩
    intro hR hclock further hfurther
    have hsame : restored.ledger = kept.ledger := hledger
    exact ⟨run_of_ledger hR hclock hsame hfurther, fun i call => answers_of_ledger hR hclock hsame hfurther⟩
  · intro s hs calls c
    refine ⟨?_, snapshotNames_of_run G hs calls c⟩
    intro name hname
    refine loadSnapshot_of_notMem G ?_ c
    rw [mem_keys_snapshots_run, hs, not_or]
    exact ⟨List.not_mem_nil, hname⟩

/-- A ledger that comes back twice, and goes on as it did at first. -/
theorem snapshots_restore_twice :
    let G := trusting Runtime.null
    let submission : Call := ⟨.start (), .submit (serviceEnvelope Runtime.null 0)⟩
    let load : Call := ⟨.start (), .loadSnapshot "once"⟩
    let between := [submission, load, submission, ⟨.start (), .createSnapshot "again"⟩]
    let kept := G.perform (trustingStart Runtime.null ()) ⟨.start (), .createSnapshot "once"⟩
    let restored := G.perform (G.run kept between) load
    G.run kept between ≠ kept ∧ restored.ledger = (trustingStart Runtime.null ()).ledger ∧
    G.answers restored [submission] = G.answers kept [submission] ∧
    G.answer kept ⟨.start (), .loadSnapshot "never"⟩ = .error (.snapshotNotFound "never") := by
  intro G submission load between kept restored
  have hbetween : ("once" : Text) ∉ captured between := by decide
  have hnever : ("never" : Text) ∉ captured [⟨.start (), .createSnapshot "once"⟩] := by decide
  have hsubmission : ∀ call ∈ [submission], call.operation.movesSnapshots = false := by
    intro call hcall
    obtain rfl := List.mem_singleton.mp hcall
    rfl
  obtain ⟨hrestore, hnames⟩ := snapshots_restore G
  obtain ⟨_, _, hledger, hfurther⟩ :=
    hrestore (trustingStart Runtime.null ()) "once" between (.start ()) (.start ()) hbetween
  obtain ⟨_, hanswers⟩ := hfurther Runtime.null_memoryless (fun _ _ => rfl) [submission] hsubmission
  obtain ⟨hmissing, _⟩ := hnames (trustingStart Runtime.null ()) rfl [⟨.start (), .createSnapshot "once"⟩] (.start ())
  refine ⟨?_, hledger, ?_, (hmissing "never" hnever).1⟩
  · intro hsame
    have hheight : (G.run kept between).ledger.blocks.length = 2 := by decide +kernel
    rw [hsame] at hheight
    cases hheight
  · have hfirst := hanswers 0 submission rfl nofun
    exact congrArg (fun answer => [answer]) (Option.some.inj hfirst)

/-- The names are no part of the ledger: those that were used after it was kept are there when it is back. -/
theorem names_outlast_snapshot :
    let G := trusting Runtime.null
    let between : List Call := [⟨.start (), .createSnapshot "b"⟩]
    let kept := G.perform (trustingStart Runtime.null ()) ⟨.start (), .createSnapshot "a"⟩
    let restored := G.perform (G.run kept between) ⟨.start (), .loadSnapshot "a"⟩
    let further : List Call := [⟨.start (), .ask .snapshotNames⟩]
    G.engine.runtime.Memoryless ∧ G.engine.Timeless ∧ ("a" : Text) ∉ captured between ∧
    (∀ call ∈ further, call.operation.movesSnapshots = false) ∧
    G.answers kept further = [.ok (.names ["a"])] ∧ G.answers restored further = [.ok (.names ["a", "b"])] ∧
    G.answers restored further ≠ G.answers kept further := by
  intro G between kept restored further
  have hkept : G.answers kept further = [.ok (.names ["a"])] := by
    have hnames : G.answers kept further = [.ok (.names ((["a"] : List Text).mergeSort Text.le))] := rfl
    rw [hnames, List.mergeSort_singleton]
  have hrestored : G.answers restored further = [.ok (.names ["a", "b"])] := by
    have hnames : G.answers restored further = [.ok (.names ((["a", "b"] : List Text).mergeSort Text.le))] := rfl
    rw [hnames, Lists.mergeSort_pair]
    rfl
  refine ⟨Runtime.null_memoryless, fun _ _ => rfl, by decide, ?_, hkept, hrestored, ?_⟩
  · intro call hcall
    obtain rfl := List.mem_singleton.mp hcall
    rfl
  · rw [hkept, hrestored]
    intro hsame
    have hnames : (["a", "b"] : List Text) = ["a"] := Answer.names.inj (Except.ok.inj (List.cons.inj hsame).1)
    cases hnames

end Embedded

end Signatory
