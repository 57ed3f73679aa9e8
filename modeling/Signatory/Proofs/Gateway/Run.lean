import Mathlib.Data.List.Induction
import Signatory.Gateway.Open
import Signatory.Proofs.Ledger.Submission
import Signatory.Proofs.Poll

/-! Runs of an embedded gateway: calls of any clients, one after another. Only a new account and a submission make a
ledger that was not there before; what these preserve holds of the live ledger and of all kept ones. -/

namespace Signatory.Embedded
set_option autoImplicit false
open Outcome

inductive Question where
  | account (address : Bytes)
  | accountOf (address : Cbor.Value)
  | transaction (id : Bytes)
  | result (ticket : Ticket) (wait : Bool) (timeout : Option Number)
  | latestBlock
  | blockNamed (id : Bytes)
  | blockAt (height : Int)
  | events (type : Text) (first last : Int)
  | collection (id : Bytes)
  | snapshotNames

inductive Operation where
  | createAccount (keys : List AccountKey)
  | submit (e : Envelope)
  | submitLoose (e : LooseEnvelope)
  | script (script : Bytes) (arguments : List Json)
  | createSnapshot (name : Text)
  | loadSnapshot (name : Text)
  | ask (question : Question)

/-- An operation by a client, in the surroundings that it has then. -/
structure Call where
  surroundings : Client Unit
  operation : Operation

variable {μ : Type} (G : Embedded μ)

def Question.after (c : Client (State μ)) : Question → Client (State μ)
  | account address => (G.gateway.account address c).2
  | accountOf address => (G.gateway.accountOf address c).2
  | transaction id => (G.gateway.transaction id c).2
  | result ticket wait timeout => (G.gateway.result ticket wait timeout c).2
  | latestBlock => (G.gateway.latestBlock c).2
  | blockNamed id => (G.gateway.blockNamed id c).2
  | blockAt height => (G.gateway.blockAt height c).2
  | events type first last => (G.gateway.events type first last c).2
  | collection id => (G.gateway.collection id c).2
  | snapshotNames => (Embedded.snapshotNames c).2

def Operation.after (c : Client (State μ)) : Operation → Client (State μ)
  | createAccount keys => (Embedded.createAccount keys c).2
  | submit e => (G.gateway.submit e c).2
  | submitLoose e => (G.gateway.submitLoose e c).2
  | script code arguments => (G.gateway.script code arguments c).2
  | createSnapshot name => (Embedded.createSnapshot name c).2
  | loadSnapshot name => (Embedded.loadSnapshot name c).2
  | ask question => question.after G c

/-- The gateway after a call. -/
def perform (s : State μ) (call : Call) : State μ :=
  (call.operation.after G (call.surroundings.withBackend s)).backend

def run (s : State μ) (calls : List Call) : State μ := calls.foldl G.perform s

def Operation.creates : Operation → Bool
  | createAccount _ => true
  | _ => false

def creations (calls : List Call) : Nat := calls.countP (·.operation.creates)

/-- The ledgers of a gateway: the live one and those kept under a name. -/
inductive State.Keeps (s : State μ) : Ledger → Prop where
  | live : Keeps s s.ledger
  | kept {name : Text} {l : Ledger} : s.snapshots.find? name = some l → Keeps s l

theorem loggingCrash_backend {α : Type} (subject : Text) (call : Action (Client (State μ)) α) (c : Client (State μ)) :
    (loggingCrash subject call c).1 = (call c).1 ∧ (loggingCrash subject call c).2.backend = (call c).2.backend := by
  unfold loggingCrash
  rcases call c with ⟨e | x, c'⟩
  · cases hline : crashLine? subject e <;> simp [hline, Client.log]
  · exact ⟨rfl, rfl⟩

/-- The transaction of an envelope, once it may run. -/
def admission (e : Envelope) (l : Ledger) : Except Error Engine.Admission := do
  e.checkComplete
  G.engine.accept l e.toTransaction

def admissionLoose (e : LooseEnvelope) (l : Ledger) : Except Error Engine.Admission := do
  e.checkComplete
  G.engine.acceptLoose l e.toLooseTransaction

/-- A submission is an attempt of the engine at what passes the check of the gateway. -/
theorem checked_attempt (check : Except Error Unit) (subject : Text) (accept : Ledger → Except Error Engine.Admission)
    {f : Engine.State μ → Except Error Bytes × Engine.State μ}
    (hf : ∀ s, f s = G.engine.attempt s (accept s.ledger)) (c : Client (State μ)) :
    let call : Action (Client (State μ)) Bytes := do
      check
      loggingCrash subject (change f)
    (call c).1 = (G.engine.attempt c.backend.engine (check >>= fun _ => accept c.backend.ledger)).1 ∧
    (call c).2.backend = { c.backend with
      engine := (G.engine.attempt c.backend.engine (check >>= fun _ => accept c.backend.ledger)).2 } := by
  cases check with
  | error error => exact ⟨rfl, rfl⟩
  | ok _ =>
    obtain ⟨hanswer, hbackend⟩ := loggingCrash_backend subject (change f) c
    obtain rfl : f = fun s => G.engine.attempt s (accept s.ledger) := funext hf
    exact ⟨hanswer, hbackend⟩

theorem submit_eq_attempt (e : Envelope) (c : Client (State μ)) :
    (G.submit e c).1 = (G.engine.attempt c.backend.engine (G.admission e c.backend.ledger)).1 ∧
    (G.submit e c).2.backend =
      { c.backend with engine := (G.engine.attempt c.backend.engine (G.admission e c.backend.ledger)).2 } :=
  G.checked_attempt e.checkComplete _ (fun l => G.engine.accept l e.toTransaction)
    (fun s => G.engine.submit_eq_attempt s e.toTransaction) c

theorem submitLoose_eq_attempt (e : LooseEnvelope) (c : Client (State μ)) :
    (G.submitLoose e c).1 = (G.engine.attempt c.backend.engine (G.admissionLoose e c.backend.ledger)).1 ∧
    (G.submitLoose e c).2.backend =
      { c.backend with engine := (G.engine.attempt c.backend.engine (G.admissionLoose e c.backend.ledger)).2 } :=
  G.checked_attempt e.checkComplete _ (fun l => G.engine.acceptLoose l e.toLooseTransaction)
    (fun s => G.engine.submitLoose_eq_attempt s e.toLooseTransaction) c

variable {G}

theorem admission_admitted {e : Envelope} {l : Ledger} {x : Engine.Admission} (h : G.admission e l = .ok x) :
    x.Admitted G.engine.suite l := by
  obtain ⟨_, _, h⟩ := bind_eq_ok.mp h
  exact Engine.accept_admitted h

theorem admissionLoose_admitted {e : LooseEnvelope} {l : Ledger} {x : Engine.Admission}
    (h : G.admissionLoose e l = .ok x) : x.Admitted G.engine.suite l := by
  obtain ⟨_, _, h⟩ := bind_eq_ok.mp h
  exact Engine.acceptLoose_admitted h

variable (G)

/-- A question changes the client only. -/
theorem ask_backend (question : Question) (c : Client (State μ)) : (question.after G c).backend = c.backend := by
  cases question with
  | result id wait timeout =>
    cases wait with
    | false => rfl
    | true => exact Poll.waitForSeal_keeps (Client.world_keeps_backend c.backend fun _ _ => rfl) Client.patience c rfl
  | _ => rfl

theorem script_backend (code : Bytes) (arguments : List Json) (c : Client (State μ)) :
    (G.gateway.script code arguments c).2.backend =
      { c.backend with engine := (G.engine.evaluate c.backend.engine code arguments).2 } :=
  (loggingCrash_backend "script" (change fun s => G.engine.evaluate s code arguments) c).2

theorem loadSnapshot_backend (name : Text) (c : Client (State μ)) :
    (loadSnapshot name c).2.backend = (c.backend.snapshots.find? name).elim c.backend fun ledger =>
      { c.backend with engine := { c.backend.engine with ledger } } := by
  simp only [loadSnapshot, Client.onBackend]
  cases c.backend.snapshots.find? name <;> rfl

theorem gateway_submit_eq (e : Envelope) (c : Client (State μ)) :
    G.gateway.submit e c = ((G.submit e c).1.map .id, (G.submit e c).2) := Action.map_eq Ticket.id (G.submit e) c

theorem gateway_submitLoose_eq (e : LooseEnvelope) (c : Client (State μ)) :
    G.gateway.submitLoose e c = ((G.submitLoose e c).1.map .id, (G.submitLoose e c).2) :=
  Action.map_eq Ticket.id (G.submitLoose e) c

/-- What an operation does to the gateway, whoever asks for it. -/
def Operation.effect (s : State μ) : Operation → State μ
  | createAccount keys => { s with engine := (Engine.createAccount s.engine (keys.map rawKey)).2 }
  | submit e => { s with engine := (G.engine.attempt s.engine (G.admission e s.ledger)).2 }
  | submitLoose e => { s with engine := (G.engine.attempt s.engine (G.admissionLoose e s.ledger)).2 }
  | script code arguments => { s with engine := (G.engine.evaluate s.engine code arguments).2 }
  | createSnapshot name => { s with snapshots := s.snapshots.insert name s.ledger }
  | loadSnapshot name => (s.snapshots.find? name).elim s fun ledger => { s with engine := { s.engine with ledger } }
  | ask _ => s

theorem perform_eq (s : State μ) (call : Call) : G.perform s call = call.operation.effect G s := by
  obtain ⟨surroundings, operation⟩ := call
  cases operation with
  | createAccount keys => rfl
  | submit e =>
    rw [perform, Operation.after, gateway_submit_eq]
    exact (G.submit_eq_attempt e (surroundings.withBackend s)).2
  | submitLoose e =>
    rw [perform, Operation.after, gateway_submitLoose_eq]
    exact (G.submitLoose_eq_attempt e (surroundings.withBackend s)).2
  | script code arguments => exact G.script_backend code arguments (surroundings.withBackend s)
  | createSnapshot name => rfl
  | loadSnapshot name => exact loadSnapshot_backend name (surroundings.withBackend s)
  | ask question => exact G.ask_backend question (surroundings.withBackend s)

variable {G}

theorem State.Keeps.engine {s : State μ} {engine : Engine.State μ} {l : Ledger} (h : Keeps { s with engine } l) :
    l = engine.ledger ∨ s.Keeps l := by
  cases h with
  | live => exact .inl rfl
  | kept h => exact .inr (.kept h)

theorem State.Keeps.snapshot {s : State μ} {name : Text} {l : Ledger}
    (h : Keeps { s with snapshots := s.snapshots.insert name s.ledger } l) : s.Keeps l := by
  cases h with
  | live => exact .live
  | @kept other _ h =>
    rw [OrderedMap.find?_insert] at h
    split at h
    · obtain rfl := Option.some.inj h
      exact .live
    · exact .kept h

variable (G)

/-- A new ledger is that of a new account or of a submission. -/
theorem keeps_perform {s : State μ} {call : Call} {l : Ledger} (h : (G.perform s call).Keeps l) :
    s.Keeps l ∨
    (call.operation.creates = true ∧ ∃ keys, l = (Engine.createAccount s.engine keys).2.ledger) ∨
    ∃ admission : Except Error Engine.Admission, (∀ x, admission = .ok x → x.Admitted G.engine.suite s.ledger) ∧
      l = (G.engine.attempt s.engine admission).2.ledger := by
  rw [perform_eq] at h
  generalize call.operation = operation at h ⊢
  cases operation with
  | createAccount keys =>
    rcases State.Keeps.engine h with rfl | h
    · exact .inr (.inl ⟨rfl, keys.map rawKey, rfl⟩)
    · exact .inl h
  | submit e =>
    rcases State.Keeps.engine h with rfl | h
    · exact .inr (.inr ⟨_, fun _ => admission_admitted, rfl⟩)
    · exact .inl h
  | submitLoose e =>
    rcases State.Keeps.engine h with rfl | h
    · exact .inr (.inr ⟨_, fun _ => admissionLoose_admitted, rfl⟩)
    · exact .inl h
  | script code arguments =>
    rcases State.Keeps.engine h with rfl | h
    · exact .inl .live
    · exact .inl h
  | createSnapshot name => exact .inl (State.Keeps.snapshot h)
  | loadSnapshot name =>
    rw [Operation.effect] at h
    cases hfind : s.snapshots.find? name with
    | none =>
      rw [hfind] at h
      exact .inl h
    | some ledger =>
      -- The live ledger is now the one that was kept.
      rw [hfind] at h
      rcases State.Keeps.engine h with rfl | h
      · exact .inl (.kept hfind)
      · exact .inl h
  | ask question => exact .inl h

/-- What new accounts and submissions preserve holds of all ledgers of a run; it may count the accounts created. -/
theorem run_keeps {I : Nat → Ledger → Prop} (hmono : ∀ n l, I n l → I (n + 1) l)
    (hcreate : ∀ n (s : Engine.State μ) keys, I n s.ledger → I (n + 1) (Engine.createAccount s keys).2.ledger)
    (hattempt : ∀ n (s : Engine.State μ) (admission : Except Error Engine.Admission),
      (∀ x, admission = .ok x → x.Admitted G.engine.suite s.ledger) → I n s.ledger → I n (G.engine.attempt s admission).2.ledger)
    {s : State μ} {n : Nat} (hs : ∀ l, s.Keeps l → I n l) (calls : List Call) :
    ∀ l, (G.run s calls).Keeps l → I (n + creations calls) l := by
  -- from the end: the calls before the last one have kept the invariant of every ledger that the last one finds
  induction calls using List.reverseRecOn with
  | nil => exact hs
  | append_singleton calls call ih =>
    intro l hl
    have hrun : G.run s (calls ++ [call]) = G.perform (G.run s calls) call := by
      simp only [run, List.foldl_append, List.foldl_cons, List.foldl_nil]
    have hcount : creations (calls ++ [call]) = creations calls + if call.operation.creates then 1 else 0 := by
      simp only [creations, List.countP_append, List.countP_singleton]
    have hgrow : ∀ l, I (n + creations calls) l → I (n + creations (calls ++ [call])) l := by
      intro l h
      rw [hcount]
      split
      · exact hmono _ l h
      · exact h
    rw [hrun] at hl
    rcases G.keeps_perform hl with hl | ⟨hcreates, keys, rfl⟩ | ⟨admission, hadmitted, rfl⟩
    · exact hgrow l (ih l hl)
    · rw [hcount, if_pos hcreates, ← Nat.add_assoc]
      exact hcreate _ _ keys (ih _ .live)
    · exact hgrow _ (hattempt _ _ admission hadmitted (ih _ .live))

-- A gateway that takes every signature for valid, for runs on small ledgers.
def trustingSuite : CryptoSuite where
  digest := id
  isPoint _ _ := true
  publicPoint _ n := (n, n)
  sign _ _ _ _ := Der.pair (1, 1)
  verify _ _ _ _ _ := true

def trusting (R : Runtime μ) : Embedded μ := ⟨⟨trustingSuite, R, Engine.defaultMaxGasLimit, stillClock⟩, .int 1⟩

def firstBlock (R : Runtime μ) : StoredBlock := (trusting R).engine.nextBlock [] [] ⟨0, some 0⟩

def trustingStart (R : Runtime μ) (memory : μ) : State μ where
  engine.ledger :=
    { Ledger.empty with
      accounts := OrderedMap.empty.insert Engine.serviceAddress
        { address := Engine.serviceAddress, keys := Engine.keysFrom 0 [nobodysKey] }
      blocks := [firstBlock R] }
  engine.memory := memory
  engine.readings := 1
  snapshots := .empty

def serviceEnvelope (R : Runtime μ) (sequence : Int) : Envelope where
  script := [0x74, 0x78]
  arguments := []
  payer := Engine.serviceAddress
  authorizers := []
  proposalKey := ⟨Engine.serviceAddress, 0, some sequence⟩
  gasLimit := some 1
  referenceBlock := some (firstBlock R).id
  payloadSignatures := .ofList [((Engine.serviceAddress, 0), List.replicate pairSize 1)]
  envelopeSignatures := .ofList [((Engine.serviceAddress, 0), List.replicate pairSize 1)]
  roles := none

end Signatory.Embedded
