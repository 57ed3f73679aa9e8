import Signatory.Proofs.Gateway.Answer
import Signatory.Proofs.Ledger.Execution

/-! The history of a run: the executions behind the live ledger, and behind each ledger that is kept. A relation of a
ledger to its executions that new accounts and submissions preserve holds of all ledgers of a run. -/

namespace Signatory.Embedded
set_option autoImplicit false

structure Chronicle where
  live : List Execution
  kept : OrderedMap Text (List Execution)

def Chronicle.start : Chronicle := ⟨[], .empty⟩

variable {μ : Type} (G : Embedded μ)

def executed (s : State μ) (call : Call) : List Execution :=
  match call.operation.submission? G s.ledger with
  | some admission => G.engine.executions s.engine admission
  | none => []

/-- The chronicle after a call. A ledger comes back with the executions behind it; where it was kept before the
chronicle began, none are known. -/
def Chronicle.next (s : State μ) (call : Call) (h : Chronicle) : Chronicle :=
  match call.operation with
  | .createSnapshot name => { h with kept := h.kept.insert name h.live }
  | .loadSnapshot name =>
    match s.snapshots.find? name with
    | some _ => { h with live := (h.kept.find? name).getD [] }
    | none => h
  | _ => { h with live := h.live ++ G.executed s call }

def chronicle (s : State μ) (h : Chronicle) : List Call → Chronicle
  | [] => h
  | call :: calls => chronicle (G.perform s call) (h.next G s call) calls

/-- The executions behind the ledger after some calls. -/
def history (s : State μ) (calls : List Call) : List Execution := (G.chronicle s .start calls).live

/-- Every ledger of a gateway is related to the executions behind it. -/
structure Chronicle.Follows (P : Ledger → List Execution → Prop) (s : State μ) (h : Chronicle) : Prop where
  live : P s.ledger h.live
  kept : ∀ name l, s.snapshots.find? name = some l → P l ((h.kept.find? name).getD [])

theorem chronicle_concat (s : State μ) (h : Chronicle) (calls : List Call) (call : Call) :
    G.chronicle s h (calls ++ [call]) = (G.chronicle s h calls).next G (G.run s calls) call := by
  induction calls generalizing s h with
  | nil => rfl
  | cons first calls ih => exact ih (G.perform s first) (h.next G s first)

variable {G}

theorem next_of_submission? {s : State μ} {call : Call} {admission : Except Error Engine.Admission}
    (hs : call.operation.submission? G s.ledger = some admission) (h : Chronicle) :
    h.next G s call = { h with live := h.live ++ G.engine.executions s.engine admission } := by
  have hexecuted : G.executed s call = G.engine.executions s.engine admission := by
    rw [executed, hs]
  obtain ⟨surroundings, operation⟩ := call
  cases operation with
  | submit e => rw [← hexecuted, Chronicle.next]
  | submitLoose e => rw [← hexecuted, Chronicle.next]
  | _ => cases hs

theorem history_concat {s : State μ} {calls : List Call} {call : Call} {admission : Except Error Engine.Admission}
    (hs : call.operation.submission? G (G.run s calls).ledger = some admission) :
    G.history s (calls ++ [call]) = G.history s calls ++ G.engine.executions (G.run s calls).engine admission := by
  rw [history, chronicle_concat, next_of_submission? hs]
  rfl

section Follows

variable {P : Ledger → List Execution → Prop}
  (hcreate : ∀ (s : Engine.State μ) keys es, P s.ledger es → P (Engine.createAccount s keys).2.ledger es)
  (hattempt : ∀ (s : Engine.State μ) (admission : Except Error Engine.Admission) es,
    (∀ x, admission = .ok x → x.Admitted G.engine.suite s.ledger) → P s.ledger es →
      P (G.engine.attempt s admission).2.ledger (es ++ G.engine.executions s admission))
include hcreate hattempt

theorem follows_perform {s : State μ} {h : Chronicle} (hs : h.Follows P s) (call : Call) :
    (h.next G s call).Follows P (G.perform s call) := by
  have hsubmission {admission : Except Error Engine.Admission}
      (hadmission : call.operation.submission? G s.ledger = some admission) :
      (h.next G s call).Follows P (G.perform s call) := by
    rw [next_of_submission? hadmission, (attempt_of_submission? hadmission).2]
    refine ⟨hattempt s.engine admission h.live ?_ hs.live, hs.kept⟩
    rintro x rfl
    exact submission?_admitted hadmission
  have hsame {l : Ledger} : P l h.live → P l (h.live ++ []) := by
    rw [List.append_nil]
    exact id
  obtain ⟨surroundings, operation⟩ := call
  rw [perform_eq] at hsubmission ⊢
  cases operation with
  | createAccount keys => exact ⟨hsame (hcreate s.engine (keys.map rawKey) h.live hs.live), hs.kept⟩
  | submit e => exact hsubmission rfl
  | submitLoose e => exact hsubmission rfl
  | script code arguments => exact ⟨hsame hs.live, hs.kept⟩
  | createSnapshot name =>
    refine ⟨hs.live, ?_⟩
    intro other l hl
    rw [Chronicle.next, OrderedMap.find?_insert]
    have hfind : (s.snapshots.insert name s.ledger).find? other = some l := hl
    rw [OrderedMap.find?_insert] at hfind
    split at hfind
    · rename_i heq
      obtain rfl := Option.some.inj hfind
      rw [if_pos heq]
      exact hs.live
    · rename_i hne
      rw [if_neg hne]
      exact hs.kept other l hfind
  | loadSnapshot name =>
    simp only [Operation.effect, Chronicle.next]
    cases hfind : s.snapshots.find? name with
    | none => exact hs
    | some l => exact ⟨hs.kept name l hfind, hs.kept⟩
  | ask question => exact ⟨hsame hs.live, hs.kept⟩

theorem follows_run {s : State μ} {h : Chronicle} (hs : h.Follows P s) (calls : List Call) :
    (G.chronicle s h calls).Follows P (G.run s calls) := by
  induction calls generalizing s h with
  | nil => exact hs
  | cons call calls ih => exact ih (follows_perform hcreate hattempt hs call)

end Follows

/-- Every execution in the history was sealed, and its ledger still tells of it. -/
theorem tells_history (s : State μ) (calls : List Call) :
    ∀ ex ∈ G.history s calls, (G.run s calls).ledger.Tells ex ∧ G.engine.Sealed ex := by
  have hfollows : (G.chronicle s .start calls).Follows
      (fun l es => (∀ ex ∈ es, l.Tells ex) ∧ ∀ ex ∈ es, G.engine.Sealed ex) (G.run s calls) := by
    apply follows_run
    · intro s keys es h
      exact ⟨fun ex hex => ⟨(h.1 ex hex).stored, (h.1 ex hex).result⟩, h.2⟩
    · intro s admission es hadmitted h
      refine ⟨Engine.tells_attempt (fun x hx => (hadmitted x hx).fits.fresh) h.1, ?_⟩
      intro ex hex
      rcases List.mem_append.mp hex with hex | hex
      · exact h.2 ex hex
      · exact Engine.sealed_of_mem_executions hadmitted hex
    · have hnone (l : Ledger) : (∀ ex ∈ [], l.Tells ex) ∧ ∀ ex ∈ [], G.engine.Sealed ex :=
        ⟨List.forall_mem_nil _, List.forall_mem_nil _⟩
      exact ⟨hnone s.ledger, fun _ l _ => hnone l⟩
  exact fun ex hex => ⟨hfollows.live.1 ex hex, hfollows.live.2 ex hex⟩

end Signatory.Embedded
