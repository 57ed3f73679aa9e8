import Signatory.Proofs.Ledger.Chain
import Signatory.Proofs.Ledger.Execution

/-! Events of the executions behind a ledger. The block that sealed an execution holds all that it emitted, in order,
and other blocks hold nothing of it. -/

namespace Signatory
set_option autoImplicit false
open Outcome

variable {μ : Type}

/-- Executions emit only what can be read. -/
def Runtime.Legible (R : Runtime μ) : Prop :=
  ∀ t l m emitted accounts m', R.execute t l m = (.done emitted, accounts, m') → ∀ v ∈ emitted, Readable v

namespace Event

/-- The event that an emitted value stands for; a field that cannot be read is left empty. -/
def ofEmitted (transaction : Bytes) (position : Nat) (v : Json) : Event where
  type :=
    match v.field? "type" with
    | some (.text s) => s
    | _ => []
  transaction
  transactionIndex := 0
  eventIndex := position
  payload :=
    match v.field? "payload" with
    | some (.object fields) => fields
    | _ => []

def stored (e : Event) : StoredEvent :=
  ⟨.text e.type, e.transaction, e.transactionIndex, e.eventIndex, .object e.payload⟩

def hasType (type : Text) (e : Event) : Bool := e.type == type

theorem mapM_toEvent_stored (events : List Event) : (events.map stored).mapM StoredEvent.toEvent = .ok events := by
  rw [mapM_eq_ok, List.forall₂_map_left_iff, List.forall₂_same]
  exact fun _ _ => rfl

theorem filter_hasType_stored (type : Text) (events : List Event) :
    (events.map stored).filter (·.hasType type) = (events.filter (·.hasType type)).map stored :=
  List.filter_map

end Event

theorem StoredResult.toResult_stored (id block : Bytes) (message : Text) (events : List Event) :
    toResult ⟨id, block, message, events.map Event.stored⟩ = .ok ⟨.sealed, message, events, some block⟩ := by
  rw [toResult, Event.mapM_toEvent_stored]
  rfl

theorem StoredEvent.ofEmitted_of_readable (id : Bytes) (position : Nat) {emitted : List Json}
    (h : ∀ v ∈ emitted, Readable v) :
    ofEmitted id position emitted =
      .ok ((emitted.mapIdx fun i v => Event.ofEmitted id (position + i) v).map Event.stored) := by
  induction emitted generalizing position with
  | nil => rfl
  | cons v rest ih =>
    rw [List.forall_mem_cons] at h
    obtain ⟨fields, type, payload, rfl, htype, hpayload⟩ := h.1
    have hfirst : (Event.ofEmitted id position (.object fields)).stored =
        ⟨.text type, id, 0, position, .object payload⟩ := by
      simp only [Event.ofEmitted, Json.field?, htype, hpayload, Event.stored]
    have hshift : (fun i v => Event.ofEmitted id (position + (i + 1)) v) =
        fun i v => Event.ofEmitted id (position + 1 + i) v := by
      funext i v
      rw [Nat.add_right_comm, Nat.add_assoc]
    rw [List.mapIdx_cons, List.map_cons, hshift, Nat.add_zero, hfirst]
    simp only [ofEmitted, htype, hpayload, Option.getD_some, ih (position + 1) h.2]
    rfl

def Execution.events (ex : Execution) : List Event := ex.outcome.emitted.mapIdx (Event.ofEmitted ex.admission.id)

namespace Execution

variable {ex : Execution}

theorem stored_events (h : ∀ v ∈ ex.outcome.emitted, Readable v) :
    StoredEvent.ofEmitted ex.admission.id 0 ex.outcome.emitted = .ok (ex.events.map Event.stored) := by
  have hstored := StoredEvent.ofEmitted_of_readable ex.admission.id 0 h
  simp only [Nat.zero_add] at hstored
  exact hstored

theorem getElem?_events {i : Nat} {e : Event} (h : ex.events[i]? = some e) :
    e.transaction = ex.admission.id ∧ e.eventIndex = i := by
  rw [events, List.getElem?_mapIdx, Option.map_eq_some_iff] at h
  obtain ⟨v, _, rfl⟩ := h
  exact ⟨rfl, rfl⟩

/-- An emitted map stands at its own position, under the identifier of its transaction. -/
theorem getElem?_events_of_emitted (h : ∀ v ∈ ex.outcome.emitted, Readable v) {i : Nat} {v : Json}
    (hv : ex.outcome.emitted[i]? = some v) :
    ∃ fields type payload, v = .object fields ∧ Entries.find? ("type" : Text) fields = some (.text type) ∧
      Entries.find? ("payload" : Text) fields = some (.object payload) ∧
      ex.events[i]? = some ⟨type, ex.admission.id, 0, i, payload⟩ := by
  obtain ⟨fields, type, payload, rfl, htype, hpayload⟩ := h v (List.mem_of_getElem? hv)
  refine ⟨fields, type, payload, rfl, htype, hpayload, ?_⟩
  rw [events, List.getElem?_mapIdx, hv, Option.map_some, Event.ofEmitted, Json.field?, Json.field?, htype, hpayload]

theorem transaction_of_mem_events {e : Event} (h : e ∈ ex.events) : e.transaction = ex.admission.id := by
  obtain ⟨i, hi⟩ := List.mem_iff_getElem?.mp h
  exact (getElem?_events hi).1

theorem nodup_events : ex.events.Nodup := by
  rw [List.nodup_iff_getElem?_ne_getElem?]
  intro i j hij hj hsame
  obtain ⟨e, he⟩ : ∃ e, ex.events[j]? = some e := ⟨_, List.getElem?_eq_getElem hj⟩
  have hi := (getElem?_events (hsame.trans he)).2
  rw [(getElem?_events he).2] at hi
  omega

end Execution

/-- What was emitted in the block at a height. The first block seals nothing. -/
def emittedAt (es : List Execution) : (height : Nat) → List Event
  | 0 => []
  | n + 1 => (es[n]?.map Execution.events).getD []

theorem nodup_emittedAt (es : List Execution) (height : Nat) : (emittedAt es height).Nodup := by
  cases height with
  | zero => exact List.nodup_nil
  | succ n =>
    rw [emittedAt]
    cases es[n]? with
    | none => exact List.nodup_nil
    | some ex => exact ex.nodup_events

theorem mem_emittedAt {es : List Execution} {height : Nat} {e : Event} (h : e ∈ emittedAt es height) :
    ∃ n ex, height = n + 1 ∧ es[n]? = some ex ∧ e ∈ ex.events := by
  cases height with
  | zero => cases h
  | succ n =>
    rw [emittedAt] at h
    cases hex : es[n]? with
    | none =>
      rw [hex] at h
      cases h
    | some ex =>
      rw [hex] at h
      exact ⟨n, ex, rfl, hex, h⟩

namespace Engine

variable (E : Engine μ)

/-- An intact ledger with the executions behind it, one for each stored transaction. -/
structure Recorded (l : Ledger) (es : List Execution) : Prop where
  intact : E.Intact l
  keys : l.transactions.keys = es.map (·.admission.id)
  tells : ∀ ex ∈ es, l.Tells ex
  readable : ∀ ex ∈ es, ∀ v ∈ ex.outcome.emitted, Readable v

variable {E} {l : Ledger} {es : List Execution}

theorem recorded_start {service : RawKey} {memory : μ} {s : State μ} (h : E.start service memory = .ok s) :
    E.Recorded s.ledger [] := by
  refine ⟨intact_start h, ?_, List.forall_mem_nil _, List.forall_mem_nil _⟩
  obtain ⟨time, hledger⟩ := start_eq_ok h
  rw [hledger]
  rfl

theorem Recorded.of_accounts (h : E.Recorded l es) (accounts : Accounts) (accountCounter : Nat) :
    E.Recorded { l with accounts, accountCounter } es where
  intact := h.intact.of_accounts accounts accountCounter
  keys := h.keys
  tells ex hex := ⟨(h.tells ex hex).stored, (h.tells ex hex).result⟩
  readable := h.readable

theorem readable_execution (hR : E.runtime.Legible) (s : State μ) (x : Admission) :
    ∀ v ∈ (E.execution s x).outcome.emitted, Readable v := by
  rcases hran : E.runtime.execute x.transaction s.ledger s.memory with ⟨outcome, left, memory⟩
  have houtcome : (E.execution s x).outcome = outcome := congrArg Prod.fst hran
  rw [houtcome]
  cases outcome with
  | done emitted => exact hR _ _ _ _ _ _ hran
  | _ => exact List.forall_mem_nil _

/-- A submission to a legible runtime keeps a ledger and its executions in step, as long as no names collide. -/
theorem recorded_attempt (hR : E.runtime.Legible) {s : State μ} {admission : Except Error Admission}
    (hadmitted : ∀ x, admission = .ok x → x.Admitted E.suite s.ledger)
    (h : E.suite.CollisionFree s.ledger.Digests → E.Recorded s.ledger es)
    (hfree : E.suite.CollisionFree (E.attempt s admission).2.ledger.Digests) :
    E.Recorded (E.attempt s admission).2.ledger (es ++ E.executions s admission) := by
  have hfresh : ∀ x, admission = .ok x → x.id ∉ s.ledger.transactions.keys := fun x hx => (hadmitted x hx).fits.fresh
  have hkeys := keys_attempt (E := E) hfresh
  have htells (hes : ∀ ex ∈ es, s.ledger.Tells ex) := tells_attempt (E := E) hfresh hes
  have hending := attempt_ending (E := E) s admission
  generalize (E.attempt s admission).1 = answer at hending
  generalize (E.attempt s admission).2.ledger = after at hending hkeys htells hfree ⊢
  generalize E.executions s admission = executions at hending hkeys htells ⊢
  cases hending with
  | @sealed x accounts time events hx _ _ hevents =>
    have hbefore := h fun p q hp hq => hfree p q (digests_sealed (hfresh x hx) hp) (digests_sealed (hfresh x hx) hq)
    have hnumbered : StoredEvent.Numbered x.id events := by
      intro i e he
      simpa only [Nat.zero_add] using StoredEvent.ofEmitted_numbered hevents i e he
    refine ⟨hbefore.intact.sealed_block (hadmitted x hx) hnumbered hfree, ?_, htells hbefore.tells, ?_⟩
    · rw [hkeys, hbefore.keys, List.map_append]
    · intro ex hex
      rcases List.mem_append.mp hex with hex | hex
      · exact hbefore.readable ex hex
      · obtain rfl := List.mem_singleton.mp hex
        exact readable_execution hR s x
  | @unsealed _ accounts blocks hblocks =>
    rw [List.append_nil]
    rcases hblocks with rfl | ⟨x, _, v, hv, hnot⟩
    · exact (h hfree).of_accounts accounts s.ledger.accountCounter
    · exact absurd (readable_execution hR s x v hv).emitted hnot

theorem Recorded.length_blocks (h : E.Recorded l es) : l.blocks.length = es.length + 1 := by
  have hlength := h.intact.sealed.length_eq
  rw [h.keys, List.length_map, List.length_tail] at hlength
  have hpos := List.length_pos_of_ne_nil h.intact.nonempty
  omega

theorem Recorded.seals (h : E.Recorded l es) {n : Nat} {ex : Execution} (hex : es[n]? = some ex) :
    ∃ b, l.blocks[n + 1]? = some b ∧ E.Seals l b ex.admission.id := by
  have hkey : l.transactions.keys[n]? = some ex.admission.id := by
    rw [h.keys, List.getElem?_map, hex, Option.map_some]
  obtain ⟨hn, hid⟩ := List.getElem?_eq_some_iff.mp hkey
  have htail : n < l.blocks.tail.length := h.intact.sealed.length_eq ▸ hn
  have hseals := h.intact.sealed.get htail hn
  refine ⟨l.blocks.tail[n], ?_, ?_⟩
  · rw [← List.getElem?_tail, List.getElem?_eq_getElem htail]
  · rw [← hid]
    exact hseals

theorem Recorded.events_of_seals (h : E.Recorded l es) {b : StoredBlock} {ex : Execution} (hex : ex ∈ es)
    (hb : E.Seals l b ex.admission.id) : l.events.find? b.id = some (ex.events.map Event.stored) := by
  obtain ⟨r, hr, _, _, hevents, _⟩ := hb.result
  obtain ⟨block, events, hemitted, hresult⟩ := (h.tells ex hex).result
  obtain rfl := Option.some.inj (hr.symm.trans hresult)
  rw [Execution.stored_events (h.readable ex hex)] at hemitted
  rw [hevents, Except.ok.inj hemitted]

theorem Recorded.events_first (h : E.Recorded l es) {b : StoredBlock} (hb : l.blocks[0]? = some b) :
    l.events.find? b.id = none := by
  cases hfind : l.events.find? b.id with
  | none => rfl
  | some events =>
    have hmem : b.id ∈ l.blocks.tail.map StoredBlock.id := h.intact.events ▸ OrderedMap.mem_keys_iff.mpr ⟨events, hfind⟩
    obtain ⟨first, rest, hblocks⟩ := List.exists_cons_of_ne_nil h.intact.nonempty
    have hdistinct := h.intact.distinct
    rw [hblocks] at hb hmem hdistinct
    obtain rfl := Option.some.inj hb
    rw [List.map_cons, List.nodup_cons] at hdistinct
    exact absurd hmem hdistinct.1

theorem Recorded.eventsIn_eq (h : E.Recorded l es) {height : Nat} {b : StoredBlock} (hb : l.blocks[height]? = some b)
    (type : Text) : l.eventsIn type b.id = ((emittedAt es height).filter (·.hasType type)).map Event.stored := by
  unfold Ledger.eventsIn
  rw [← Event.filter_hasType_stored]
  cases height with
  | zero =>
    rw [h.events_first hb]
    rfl
  | succ n =>
    obtain ⟨hlt, _⟩ := List.getElem?_eq_some_iff.mp hb
    rw [h.length_blocks] at hlt
    have hex : es[n]? = some es[n] := List.getElem?_eq_getElem (Nat.lt_of_succ_lt_succ hlt)
    obtain ⟨c, hc, hseals⟩ := h.seals hex
    obtain rfl := Option.some.inj (hb.symm.trans hc)
    rw [h.events_of_seals (List.mem_of_getElem? hex) hseals, emittedAt, hex]
    rfl

/-- A stored result has the events of its execution. -/
theorem Recorded.result_events (h : E.Recorded l es) {ex : Execution} (hex : ex ∈ es) :
    ∃ stored, l.results.find? ex.admission.id = some stored ∧
      ∃ r, stored.toResult = .ok r ∧ r.events = ex.events := by
  obtain ⟨block, events, hemitted, hresult⟩ := (h.tells ex hex).result
  rw [Execution.stored_events (h.readable ex hex)] at hemitted
  obtain rfl := Except.ok.inj hemitted
  exact ⟨_, hresult, _, StoredResult.toResult_stored _ block _ ex.events, rfl⟩

end Engine

end Signatory
