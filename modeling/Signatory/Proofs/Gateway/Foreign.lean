import Signatory.Proofs.Gateway.Answer
import Signatory.Proofs.Gateway.Atomicity
import Signatory.Proofs.Gateway.Events
import Signatory.Proofs.Gateway.Misreading
import Signatory.Proofs.Gateway.Pipeline
import Signatory.Proofs.Transaction.Gaps

/-! Foreign errors of either gateway. What a runtime leaves behind is looked at twice: a run is sealed only if the key of
its proposer is still there and all that it emitted has a type, and its events are told only if their types are texts and
their payloads maps. What fails there leaves the gateway as it is, like an answer of a node that cannot be read. -/

namespace Signatory
set_option autoImplicit false
open Outcome

variable {μ ν : Type}

namespace StoredEvent

/-- The type is a text and the payload a map. -/
def Tellable (e : StoredEvent) : Prop := (∃ type, e.type = .text type) ∧ ∃ payload, e.payload = .object payload

theorem typeField_eq_ok {v : Json} {s : Text} : typeField v = .ok s ↔ v = .text s := by
  cases v <;> simp [typeField, Checked.fault]

theorem payloadField_eq_ok {v : Json} {fields : List (Text × Json)} : payloadField v = .ok fields ↔ v = .object fields := by
  cases v <;> simp [payloadField, Checked.fault]

theorem toEvent_cases (e : StoredEvent) :
    e.Tellable ∧ (∃ event, e.toEvent = .ok event) ∨ ¬e.Tellable ∧ Strays e.toEvent := by
  unfold Tellable toEvent
  simp only [← typeField_eq_ok, ← payloadField_eq_ok]
  cases typeField e.type with
  | error _ =>
    refine .inr ⟨fun ⟨⟨_, h⟩, _⟩ => (nomatch h), ?_⟩
    cases payloadField e.payload with
    | error _ => exact ⟨_, rfl, rfl⟩
    | ok _ => exact ⟨_, rfl, rfl⟩
  | ok type =>
    cases payloadField e.payload with
    | error _ => exact .inr ⟨fun ⟨_, _, h⟩ => (nomatch h), _, rfl, rfl⟩
    | ok payload => exact .inl ⟨⟨⟨type, rfl⟩, payload, rfl⟩, _, rfl⟩

theorem strays_toEvent_iff {e : StoredEvent} : Strays e.toEvent ↔ ¬e.Tellable := by
  rcases e.toEvent_cases with ⟨htellable, event, hevent⟩ | ⟨huntold, hstrays⟩
  · rw [hevent]
    exact iff_of_false (not_strays_ok event) (not_not_intro htellable)
  · exact iff_of_true hstrays huntold

theorem strays_mapM_toEvent_iff (events : List StoredEvent) : Strays (events.mapM toEvent) ↔ ∃ e ∈ events, ¬e.Tellable := by
  rw [strays_mapM_iff fun e _ => e.toEvent_cases.imp And.right And.right]
  simp only [strays_toEvent_iff]

end StoredEvent

theorem StoredResult.strays_toResult_iff (r : StoredResult) : Strays r.toResult ↔ ∃ e ∈ r.events, ¬e.Tellable := by
  rw [toResult, strays_bind_pure, StoredEvent.strays_mapM_toEvent_iff]

namespace BlockEvents

variable (b : StoredBlock) (events : List StoredEvent)

theorem ofStored_self :
    ofStored b [(b.id, events)] =
      do return { b.toBlock.noEvents with events := ← events.mapM StoredEvent.toEvent } := by
  rw [ofStored, Entries.find?, if_pos (beq_self_eq_true b.id), Option.getD_some]

theorem strays_ofStored_iff : Strays (ofStored b [(b.id, events)]) ↔ ∃ e ∈ events, ¬e.Tellable := by
  rw [ofStored_self, strays_bind_pure, StoredEvent.strays_mapM_toEvent_iff]

theorem exists_ofStored {b : StoredBlock} {events : List StoredEvent} (h : ∀ e ∈ events, e.Tellable) :
    ∃ batch, ofStored b [(b.id, events)] = .ok batch := by
  have hall : ∀ e ∈ events, ∃ event, e.toEvent = .ok event := by
    intro e he
    rcases e.toEvent_cases with ⟨_, hevent⟩ | ⟨huntold, _⟩
    · exact hevent
    · exact absurd (h e he) huntold
  obtain ⟨told, htold⟩ := exists_mapM_eq_ok hall
  rw [ofStored_self, htold]
  exact ⟨_, rfl⟩

end BlockEvents

namespace Ledger

/-- What is stored under a ticket holds an event that cannot be told. -/
def Garbled (l : Ledger) (ticket : Ticket) : Prop :=
  ∃ stored, l.resultOf ticket = .ok stored ∧ ∃ e ∈ stored.events, ¬e.Tellable

theorem strays_readResult_iff (l : Ledger) (ticket : Ticket) : Strays (l.readResult ticket) ↔ l.Garbled ticket := by
  rw [readResult, strays_bind, or_iff_right (not_strays_reject _)]
  simp only [StoredResult.strays_toResult_iff, Engine.reject_eq_ok]
  exact Iff.rfl

/-- The block at a height holds an event of a type that cannot be told. -/
def Untold (l : Ledger) (type : Text) (height : Int) : Prop :=
  ∃ block, l.blockAt height = .ok block ∧ ∃ e ∈ l.eventsIn type block.id, ¬e.Tellable

theorem exists_blockAt_of_le {l : Ledger} {low high : Int} {b : StoredBlock} (hlow : 0 ≤ low) (hle : low ≤ high)
    (h : l.blockAt high = .ok b) : ∃ b, l.blockAt low = .ok b := by
  obtain ⟨n, rfl, hn⟩ := Embedded.blockAt_eq_ok h
  obtain ⟨k, rfl⟩ := Int.eq_ofNat_of_zero_le hlow
  have hk : k < l.blocks.length := by
    have := (List.getElem?_eq_some_iff.mp hn).1
    omega
  exact ⟨_, Embedded.blockAt_of_getElem? (List.getElem?_eq_getElem hk)⟩

end Ledger

namespace Engine

variable {E : Engine μ}

theorem Sealing.strays_iff {s s' : State μ} {x : Admission} {emitted : List Json} {message : Text}
    {answer : Except Error Bytes} (h : Sealing E s x emitted message answer s') :
    Strays answer ↔ s.ledger.accounts.sequence? x.proposer x.transaction.keyIndex = none ∨
      Strays (E.clock s.readings) ∨ (∃ time, E.clock s.readings = .ok time) ∧ ∃ v ∈ emitted, ¬Emitted v := by
  cases h with
  | noKey hbump =>
    refine iff_of_true ?_ (.inl (bump_eq_error hbump))
    obtain rfl | rfl := bump_failure hbump <;> exact ⟨_, rfl, rfl⟩
  | noTime hbump hclock =>
    rw [hclock, or_iff_right (sequence?_ne_none_of_bump hbump), or_iff_left (by simp)]
    exact strays_error_congr
  | noEvents hbump hclock hevents =>
    refine iff_of_true ?_ (.inr (.inr ⟨⟨_, hclock⟩, StoredEvent.exists_not_emitted hevents⟩))
    obtain rfl | rfl := StoredEvent.ofEmitted_failure hevents <;> exact ⟨_, rfl, rfl⟩
  | done hbump hclock hevents =>
    refine iff_of_false (not_strays_ok _) ?_
    rintro (hnone | hstrays | ⟨_, v, hv, hnot⟩)
    · exact sequence?_ne_none_of_bump hbump hnone
    · rw [hclock] at hstrays
      exact not_strays_ok _ hstrays
    · exact hnot ((StoredEvent.ofEmitted_eq_ok_iff x.id 0).mp ⟨_, hevents⟩ v hv)

variable (E)

/-- A run that ended cannot be sealed: the key of its proposer is gone, or the clock fails in a foreign way, or it gives
the time and no event can be made of something that was emitted. -/
def Unsealable (s : State μ) (x : Admission) : Prop :=
  (∀ reason, (E.execution s x).outcome ≠ .crashed reason) ∧
    ((E.execution s x).accounts.sequence? x.proposer x.transaction.keyIndex = none ∨ Strays (E.clock s.readings) ∨
      (∃ time, E.clock s.readings = .ok time) ∧ ∃ v ∈ (E.execution s x).outcome.emitted, ¬Emitted v)

variable {E}

theorem strays_attempt_iff (s : State μ) (admission : Except Error Admission) :
    Strays (E.attempt s admission).1 ↔ Strays admission ∨ ∃ x, admission = .ok x ∧ E.Unsealable s x := by
  cases admission with
  | error error =>
    rw [or_iff_left (by simp)]
    exact strays_error_congr
  | ok x =>
    rw [or_iff_right (not_strays_ok x)]
    simp only [Except.ok.injEq, exists_eq_left']
    have hrunning := attempt_running E s x
    generalize (E.attempt s (.ok x)).1 = answer at hrunning ⊢
    generalize (E.attempt s (.ok x)).2 = s' at hrunning
    cases hrunning with
    | crashed hexecute =>
      exact iff_of_false (not_strays_error rfl) fun h => h.1 _ (congrArg Prod.fst hexecute)
    | @failed reason _ _ _ _ hexecute hsealing =>
      have houtcome : (E.execution s x).outcome = .failed reason := congrArg Prod.fst hexecute
      have hended : ∀ reason', (E.execution s x).outcome ≠ .crashed reason' := by simp [houtcome]
      rw [hsealing.strays_iff, Unsealable, and_iff_right hended, Execution.accounts_of_failed houtcome, houtcome]
      exact Iff.rfl
    | @done emitted left _ _ _ hexecute hsealing =>
      have houtcome : (E.execution s x).outcome = .done emitted := congrArg Prod.fst hexecute
      have hleft : (E.execution s x).left = left := congrArg (fun ran => ran.2.1) hexecute
      have hended : ∀ reason, (E.execution s x).outcome ≠ .crashed reason := by simp [houtcome]
      rw [hsealing.strays_iff, Unsealable, and_iff_right hended, Execution.accounts_of_done houtcome, hleft, houtcome]
      exact Iff.rfl

end Engine

namespace Transaction

theorem ready_of_id {suite : CryptoSuite} {t : Transaction} {id : Bytes} (h : t.id suite = .ok id) : t.Ready := by
  obtain ⟨_, hpreimage, _⟩ := id_eq_ok.mp h
  obtain ⟨_, hitem, _⟩ := bind_eq_ok.mp hpreimage
  unfold payloadItem at hitem
  split at hitem
  · cases hitem
  · rename_i network hnetwork
    obtain ⟨arguments, harguments, _⟩ := bind_eq_ok.mp hitem
    exact ⟨Option.isSome_iff_exists.mpr ⟨_, hnetwork⟩, exists_of_mapM_eq_ok harguments⟩

theorem strays_id_iff (suite : CryptoSuite) {t : Transaction} (h : t.isPrepared = true) :
    Strays (t.id suite) ↔ Argument.Clogged t.arguments := by
  obtain ⟨⟨reference, gas, sequence⟩, hnetwork⟩ := Option.isSome_iff_exists.mp h
  rw [Transaction.id, strays_map, idPreimage, strays_bind_pure]
  unfold payloadItem
  simp only [hnetwork]
  rw [strays_bind_pure, Argument.strays_mapM_encode_iff]

end Transaction

theorem Engine.strays_accept_iff {E : Engine μ} {l : Ledger} {t : Transaction} (h : t.isPrepared = true) :
    Strays (E.accept l t) ↔ Argument.Clogged t.arguments := by
  rw [accept, strays_bind, Transaction.strays_id_iff E.suite h, or_iff_left]
  rintro ⟨id, hid, hvalid⟩
  rw [strays_bind_pure] at hvalid
  obtain ⟨error, herror, hforeign⟩ := hvalid
  obtain ⟨r, rfl, _⟩ := validate_eq_error (Transaction.ready_of_id hid) herror
  cases hforeign

namespace Embedded

variable {G : Embedded μ}

theorem strays_admission_iff (e : Envelope) (l : Ledger) : Strays (G.admission e l) ↔ e.Unsubmittable := by
  rw [admission, strays_bind, e.strays_checkComplete_iff, Envelope.Unsubmittable]
  refine or_congr_right ⟨?_, ?_⟩
  · rintro ⟨_, hcomplete, hstrays⟩
    exact ⟨hcomplete, (Engine.strays_accept_iff (Envelope.checkComplete_eq_ok hcomplete).1).mp hstrays⟩
  · rintro ⟨hcomplete, hclogged⟩
    exact ⟨(), hcomplete, (Engine.strays_accept_iff (Envelope.checkComplete_eq_ok hcomplete).1).mpr hclogged⟩

theorem strays_eventsFrom_iff (l : Ledger) (type : Text) (count : Nat) (first : Int) :
    Strays (eventsFrom l type count first) ↔
      0 ≤ first ∧ ∃ height, first ≤ height ∧ height < first + count ∧ l.Untold type height := by
  induction count generalizing first with
  | zero =>
    refine iff_of_false (not_strays_ok []) ?_
    rintro ⟨_, height, hfirst, hlast, _⟩
    omega
  | succ count ih =>
    rw [eventsFrom, strays_bind, or_iff_right (not_strays_reject _)]
    simp only [Engine.reject_eq_ok, strays_bind, BlockEvents.strays_ofStored_iff]
    constructor
    · rintro ⟨block, hblock, hrest⟩
      obtain ⟨n, rfl, _⟩ := blockAt_eq_ok hblock
      rcases hrest with huntold | ⟨_, _, hrest | ⟨_, _, hrest⟩⟩
      · exact ⟨by omega, n, Int.le_refl _, by omega, block, hblock, huntold⟩
      · obtain ⟨hnonneg, height, hfirst, hlast, huntold⟩ := (ih (n + 1)).mp hrest
        exact ⟨by omega, height, by omega, by omega, huntold⟩
      · exact absurd hrest (not_strays_ok _)
    · rintro ⟨hnonneg, height, hfirst, hlast, untold, hfound, huntold⟩
      obtain ⟨block, hblock⟩ := Ledger.exists_blockAt_of_le hnonneg hfirst hfound
      refine ⟨block, hblock, ?_⟩
      by_cases hhere : ∃ e ∈ l.eventsIn type block.id, ¬e.Tellable
      · exact .inl hhere
      · -- All of this block can be told, so that the one that cannot is further on.
        have hne : first ≠ height := by
          rintro rfl
          obtain rfl := Except.ok.inj (hblock.symm.trans hfound)
          exact hhere huntold
        push Not at hhere
        obtain ⟨batch, hbatch⟩ := BlockEvents.exists_ofStored hhere
        have hlater := (ih (first + 1)).mpr ⟨by omega, height, by omega, by omega, untold, hfound, huntold⟩
        exact .inr ⟨batch, hbatch, .inl hlater⟩

theorem strays_events_iff (l : Ledger) (type : Text) (first last : Int) :
    Strays (events l type first last) ↔ 0 ≤ first ∧ ∃ height, first ≤ height ∧ height ≤ last ∧ l.Untold type height := by
  rw [events, strays_bind, or_iff_right (Remote.not_strays_checkRange first last)]
  constructor
  · rintro ⟨_, hcheck, hstrays⟩
    have hle := Remote.checkRange_eq_ok_iff.mp hcheck
    obtain ⟨hnonneg, height, hfirst, hlast, huntold⟩ := (strays_eventsFrom_iff l type _ first).mp hstrays
    exact ⟨hnonneg, height, hfirst, by omega, huntold⟩
  · rintro ⟨hnonneg, height, hfirst, hlast, huntold⟩
    have hle := Remote.checkRange_eq_ok_iff.mpr (hfirst.trans hlast)
    have hcount : height < first + (last - first + 1).toNat := by omega
    exact ⟨(), hle, (strays_eventsFrom_iff l type _ first).mpr ⟨hnonneg, height, hfirst, hcount, huntold⟩⟩

theorem strays_result_iff (ticket : Ticket) {wait : Bool} {timeout : Option Number} {c : Client (State μ)}
    (h : (Gateway.Operation.result ticket wait timeout).Timed G.pollInterval c) :
    Strays (G.gateway.result ticket wait timeout c).1 ↔
      (wait = true → (Client.isCancelled c).1 = false) ∧ c.backend.ledger.Garbled ticket := by
  rw [← Ledger.strays_readResult_iff, result_eq]
  cases wait with
  | false => exact (and_iff_right nofun).symm
  | true =>
    obtain ⟨hdoubles, _, htimeout⟩ := h
    obtain ⟨deadline, hdeadline⟩ : ∃ deadline,
        (timeout.mapM fun length => Client.computed (c.timeline.now.add? length)) = .ok deadline := by
      cases timeout with
      | none => exact ⟨none, rfl⟩
      | some length =>
        obtain ⟨x, hx⟩ := hdoubles.ahead (htimeout length rfl)
        exact ⟨some (.float x), by rw [Option.mapM_some, hx]; rfl⟩
    rw [if_pos rfl, hdeadline, strays_bind, or_iff_right (not_strays_ok deadline)]
    simp only [Except.ok.injEq, exists_eq_left', forall_const]
    cases (Client.isCancelled c).1 with
    | false => simp
    | true => exact iff_of_false (not_strays_error rfl) fun h => Bool.false_ne_true h.1.symm

/-- What lets an operation end in a foreign error: an envelope that does not tell its signers or has an argument that is
too long, a run that cannot be sealed, or an event that cannot be told. -/
def Unanswerable (G : Embedded μ) (c : Client (State μ)) {α : Type} : Gateway.Operation α → Prop
  | .submit e => e.Unsubmittable ∨
      ∃ x, G.admission e c.backend.ledger = .ok x ∧ G.engine.Unsealable c.backend.engine x
  | .result ticket wait _ => (wait = true → (Client.isCancelled c).1 = false) ∧ c.backend.ledger.Garbled ticket
  | .events type first last => 0 ≤ first ∧ ∃ height, first ≤ height ∧ height ≤ last ∧ c.backend.ledger.Untold type height
  | _ => False

theorem perform_strays_iff {s : State μ} (hs : G.Starts s) (calls : List Call) {c : Client (State μ)}
    (hc : c.backend = G.run s calls) {α : Type} (op : Gateway.Operation α) (h : op.Timed G.pollInterval c) :
    Strays (G.gateway.perform op c).1 ↔ G.Unanswerable c op := by
  cases op with
  | ping => exact iff_of_false (not_strays_ok ()) not_false
  | submit e =>
    rw [Gateway.perform, gateway_submit_eq, strays_map, (G.submit_eq_attempt e c).1, Engine.strays_attempt_iff,
      strays_admission_iff]
    exact Iff.rfl
  | result ticket wait timeout => exact strays_result_iff ticket h
  | script code arguments =>
    refine iff_of_false ?_ not_false
    have hscript : (G.gateway.script code arguments c).1 = (G.engine.evaluate c.backend.engine code arguments).1 :=
      (loggingCrash_backend "script" (change fun s => G.engine.evaluate s code arguments) c).1
    rw [Gateway.perform, hscript]
    rintro ⟨error, herror, hforeign⟩
    rw [Error.isForeign_of_isGateway (Engine.isGateway_of_evaluate herror)] at hforeign
    cases hforeign
  | latestBlock =>
    refine iff_of_false ?_ not_false
    have hlive : (G.run s calls).Keeps c.backend.ledger := hc ▸ .live
    obtain ⟨hblocks, _⟩ := named_run hs hlive
    have hlatest : (G.gateway.latestBlock c).1 = .ok (c.backend.ledger.blocks.getLast hblocks).toBlock := by
      have hopen : (G.gateway.latestBlock c).1 =
          StoredBlock.toBlock <$> c.backend.ledger.blocks.getLast?.elim (.error .missingEntry) .ok := rfl
      rw [hopen, List.getLast?_eq_some_getLast hblocks]
      rfl
    rw [Gateway.perform, hlatest]
    exact not_strays_ok _
  | events type first last => exact strays_events_iff c.backend.ledger type first last
  | account address => exact iff_of_false (strays_map.not.mpr (not_strays_reject _)) not_false
  | transaction id => exact iff_of_false (not_strays_reject _) not_false
  | blockNamed id => exact iff_of_false (strays_map.not.mpr (not_strays_reject _)) not_false
  | blockAt height => exact iff_of_false (strays_map.not.mpr (not_strays_reject _)) not_false
  | collection id => exact iff_of_false (strays_map.not.mpr (not_strays_reject _)) not_false

theorem not_strays_loadSnapshot (name : Text) (c : Client (State μ)) : ¬Strays (loadSnapshot name c).1 := by
  simp only [loadSnapshot, Client.onBackend]
  cases c.backend.snapshots.find? name with
  | none => exact not_strays_error rfl
  | some ledger => exact not_strays_ok ()

end Embedded

/-- An operation with numbers of a common size, on a ledger whose numbers are of such a size as well. -/
structure Embedded.Ordinary (G : Embedded μ) (c : Client (State μ)) {α : Type} (op : Gateway.Operation α) : Prop
    extends op.Ordinary G.pollInterval c where
  maximum : Text.Numeral.isWritable G.engine.maxGasLimit = true
  sequences : ∀ a ∈ c.backend.ledger.accounts.values, ∀ k ∈ a.keys, Text.Numeral.isWritable k.sequenceNumber = true

/-- A node that answers every call with an empty message. -/
def hollowRemote : Remote Unit where
  node := ⟨fun _ _ n => (.ok [], n), .unanswered, .unanswered⟩
  host := "localhost:1"
  secure := false
  apiKey := none
  timeout := .int 1
  pollInterval := .int 1

def hollowClient : Client (Remote.State Unit) := .start ⟨(), []⟩

theorem hollow_account (address : Bytes) :
    (hollowRemote.gateway.account address hollowClient).1 = .error (.missingField "account") := by
  obtain ⟨data, hdata⟩ := Remote.exists_encodeMessage (v := Wire.mapOf [("address", .bytes address)]) rfl
  have hfetch := congrArg Prod.fst (hollowRemote.fetch_eq "GetAccountAtLatestBlock"
    (Wire.mapOf [("address", .bytes address)]) "account" AccountRecord.ofWire hollowClient)
  rw [Remote.call_fst hdata] at hfetch
  exact hfetch

theorem hollow_answersCommonly : hollowRemote.node.AnswersCommonly := by
  intro method request n response payload hresponse hpayload
  obtain rfl := Except.ok.inj hresponse
  obtain rfl := Option.some.inj hpayload
  decide +kernel

end Signatory
