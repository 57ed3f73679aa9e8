import Signatory.Proofs.Gateway.History
import Signatory.Proofs.Gateway.Replay
import Signatory.Proofs.Ledger.Events

/-! Events of a range of heights. A query shows one batch for each height, and in it what the execution sealed there has
emitted; so over the whole chain every event is found once. -/

namespace Signatory.Embedded
set_option autoImplicit false
open Outcome

variable {μ : Type} (G : Embedded μ)

/-- The queries of a client show exactly what some executions have emitted. -/
structure EventsExact (c : Client (State μ)) (es : List Execution) : Prop where
  length : c.backend.ledger.blocks.length = es.length + 1
  sealed : ∀ (n : Nat) (ex : Execution), es[n]? = some ex →
    (∃ b, c.backend.ledger.blocks[n + 1]? = some b ∧ G.engine.Seals c.backend.ledger b ex.admission.id) ∧
    ex.events.length = ex.outcome.emitted.length ∧
    ∀ (i : Nat) (v : Json), ex.outcome.emitted[i]? = some v → ∃ fields type payload, v = .object fields ∧
      Entries.find? ("type" : Text) fields = some (.text type) ∧
      Entries.find? ("payload" : Text) fields = some (.object payload) ∧
      ex.events[i]? = some ⟨type, ex.admission.id, 0, i, payload⟩
  range : ∀ (type : Text) (first last : Nat), first ≤ last → last < c.backend.ledger.blocks.length →
    ∃ batches, (G.gateway.events type first last c).1 = .ok batches ∧ batches.length = last - first + 1 ∧
      ∀ i, i < batches.length → ∃ b, c.backend.ledger.blocks[first + i]? = some b ∧ b.height = (first + i : Nat) ∧
        batches[i]? = some ⟨b.id, (first + i : Nat), b.timestamp, (emittedAt es (first + i)).filter (·.hasType type)⟩
  split : ∀ (type : Text) (first middle last : Nat), first ≤ middle → middle < last →
    last < c.backend.ledger.blocks.length →
    ∃ before after, (G.gateway.events type first middle c).1 = .ok before ∧
      (G.gateway.events type (middle + 1 : Nat) last c).1 = .ok after ∧
      (G.gateway.events type first last c).1 = .ok (before ++ after)
  whole : ∀ id ∈ c.backend.ledger.results.keys, ∃ r ex, (G.gateway.fetchResult id c).1 = .ok r ∧
    ex ∈ es ∧ ex.admission.id = id ∧ r.events = ex.events ∧
    ∀ e ∈ r.events, ∃! place : Text × Nat × Nat, ∃ batches batch,
      (G.gateway.events place.1 (0 : Nat) (c.backend.ledger.blocks.length - 1 : Nat) c).1 = .ok batches ∧
      batches[place.2.1]? = some batch ∧ batch.events[place.2.2]? = some e
  outside : ∀ (type : Text) (first last : Int), first ≤ last →
    (first < 0 ∨ (c.backend.ledger.blocks.length : Int) ≤ last) →
    ∃ rejection, (G.gateway.events type first last c).1 = .error (.rejected rejection) ∧ rejection.code = .notFound ∧
      ∃ height, first ≤ height ∧ height ≤ last ∧ rejection = .noBlockAt height

variable {G}

theorem recorded_run (hR : G.engine.runtime.Legible) {s : State μ} (hs : G.Starts s) (calls : List Call)
    (hfree : G.engine.suite.CollisionFree (G.run s calls).ledger.Digests) :
    G.engine.Recorded (G.run s calls).ledger (G.history s calls) := by
  obtain ⟨service, memory, hstart, hsnapshots⟩ := hs
  have hfollows : (G.chronicle s .start calls).Follows
      (fun l es => G.engine.suite.CollisionFree l.Digests → G.engine.Recorded l es) (G.run s calls) := by
    apply follows_run
    · exact fun _ _ _ h hfree => (h hfree).of_accounts _ _
    · exact fun _ _ _ hadmitted h => Engine.recorded_attempt hR hadmitted h
    · refine ⟨fun _ => Engine.recorded_start hstart, ?_⟩
      intro name l hl
      rw [hsnapshots] at hl
      cases hl
  exact hfollows.live hfree

/-- The batch of a block: what was emitted in it, of one type. -/
def batchOf (es : List Execution) (type : Text) (b : StoredBlock) : BlockEvents :=
  { b.toBlock.noEvents with events := (emittedAt es b.height.toNat).filter (·.hasType type) }

theorem blockAt_eq_ok {l : Ledger} {height : Int} {b : StoredBlock} (h : l.blockAt height = .ok b) :
    ∃ n : Nat, height = n ∧ l.blocks[n]? = some b := by
  unfold Ledger.blockAt at h
  split at h
  · rename_i n
    refine ⟨n, rfl, ?_⟩
    cases hb : l.blocks[n]? with
    | none =>
      rw [hb] at h
      cases h
    | some other =>
      rw [hb] at h
      obtain rfl : other = b := Except.ok.inj h
      rfl
  · cases h

theorem blockAt_of_getElem? {l : Ledger} {n : Nat} {b : StoredBlock} (h : l.blocks[n]? = some b) : l.blockAt n = .ok b := by
  have hopen : l.blockAt n = (l.blocks[n]?).elim (.error (.noBlockAt n)) .ok := rfl
  rw [hopen, h]
  rfl

theorem blockAt_eq_error {l : Ledger} {height : Int} {rejection : Rejection} (h : l.blockAt height = .error rejection) :
    rejection = .noBlockAt height := by
  unfold Ledger.blockAt at h
  split at h
  · rename_i n
    cases hb : l.blocks[n]? with
    | none =>
      rw [hb] at h
      exact (Except.error.inj h).symm
    | some other =>
      rw [hb] at h
      cases h
  · exact (Except.error.inj h).symm

section Reading

variable {E : Engine μ} {l : Ledger} {es : List Execution} (h : E.Recorded l es) (type : Text)
include h

theorem batchOf_eq {height : Nat} {b : StoredBlock} (hb : l.blocks[height]? = some b) :
    batchOf es type b = ⟨b.id, height, b.timestamp, (emittedAt es height).filter (·.hasType type)⟩ := by
  have hheight := h.intact.height height b hb
  rw [batchOf, Block.noEvents, StoredBlock.toBlock, hheight, Int.toNat_natCast]

theorem ofStored_eq {height : Nat} {b : StoredBlock} (hb : l.blocks[height]? = some b) :
    BlockEvents.ofStored b [(b.id, l.eventsIn type b.id)] = .ok (batchOf es type b) := by
  have hfind : Entries.find? b.id [(b.id, l.eventsIn type b.id)] = some (l.eventsIn type b.id) := by
    rw [Entries.find?, if_pos (beq_self_eq_true b.id)]
  rw [BlockEvents.ofStored, hfind, Option.getD_some, h.eventsIn_eq hb, Event.mapM_toEvent_stored, batchOf_eq h type hb,
    Block.noEvents, StoredBlock.toBlock, h.intact.height height b hb]
  rfl

theorem eventsFrom_succ (count : Nat) {first : Nat} {b : StoredBlock} (hb : l.blocks[first]? = some b) :
    eventsFrom l type (count + 1) first =
      (eventsFrom l type count (first + 1 : Nat)).map (batchOf es type b :: ·) := by
  have hnext : ((first + 1 : Nat) : Int) = (first : Int) + 1 := Int.natCast_succ first
  rw [eventsFrom, blockAt_of_getElem? hb, hnext]
  have hread : Engine.reject (.ok b : Except Rejection StoredBlock) = .ok b := rfl
  rw [hread]
  simp only [bind, Except.bind, ofStored_eq h type hb]
  cases eventsFrom l type count ((first : Int) + 1) <;> rfl

theorem eventsFrom_eq (count : Nat) {first : Nat} (hlast : first + count ≤ l.blocks.length) :
    eventsFrom l type count first = .ok (((l.blocks.drop first).take count).map (batchOf es type)) := by
  induction count generalizing first with
  | zero => rfl
  | succ count ih =>
    have hfirst : first < l.blocks.length := by omega
    rw [eventsFrom_succ h type count (List.getElem?_eq_getElem hfirst), ih (by omega),
      List.drop_eq_getElem_cons hfirst, List.take_succ_cons, List.map_cons]
    rfl

theorem events_eq {first last : Nat} (hrange : first ≤ last) (hlast : last < l.blocks.length) :
    events l type first last = .ok (((l.blocks.drop first).take (last - first + 1)).map (batchOf es type)) := by
  have hcheck : Gateway.checkRange first last = .ok () := if_neg (by omega)
  have hcount : ((last : Int) - first + 1).toNat = last - first + 1 := by omega
  rw [events, hcheck, hcount]
  exact eventsFrom_eq h type (last - first + 1) (by omega)

/-- A range that leaves the chain is refused at its first height without a block. -/
theorem eventsFrom_outside (count : Nat) {first : Int}
    (houtside : ∃ k, first ≤ k ∧ k < first + count ∧ (k < 0 ∨ (l.blocks.length : Int) ≤ k)) :
    ∃ height, first ≤ height ∧ height < first + count ∧
      eventsFrom l type count first = .error (.rejected (.noBlockAt height)) := by
  induction count generalizing first with
  | zero =>
    obtain ⟨k, hfirst, hlast, _⟩ := houtside
    omega
  | succ count ih =>
    obtain ⟨k, hfirst, hlast, hout⟩ := houtside
    cases hblock : l.blockAt first with
    | error rejection =>
      refine ⟨first, Int.le_refl first, by omega, ?_⟩
      rw [eventsFrom, hblock, blockAt_eq_error hblock]
      rfl
    | ok b =>
      obtain ⟨n, rfl, hb⟩ := blockAt_eq_ok hblock
      have hn := (List.getElem?_eq_some_iff.mp hb).1
      have hlater : ∃ k, ((n + 1 : Nat) : Int) ≤ k ∧ k < (n + 1 : Nat) + count ∧
          (k < 0 ∨ (l.blocks.length : Int) ≤ k) := ⟨k, by omega, by omega, hout⟩
      obtain ⟨height, hnext, hend, herror⟩ := ih hlater
      refine ⟨height, by omega, by omega, ?_⟩
      rw [eventsFrom_succ h type count hb, herror]
      rfl

theorem events_outside {first last : Int} (hrange : first ≤ last)
    (houtside : first < 0 ∨ (l.blocks.length : Int) ≤ last) :
    ∃ height, first ≤ height ∧ height ≤ last ∧
      events l type first last = .error (.rejected (.noBlockAt height)) := by
  have hcheck : Gateway.checkRange first last = .ok () := if_neg (by omega)
  have hbeyond : ∃ k, first ≤ k ∧ k < first + ((last - first + 1).toNat : Int) ∧
      (k < 0 ∨ (l.blocks.length : Int) ≤ k) := by
    rcases houtside with hneg | hbeyond
    · exact ⟨first, by omega, by omega, .inl hneg⟩
    · exact ⟨last, hrange, by omega, .inr hbeyond⟩
  obtain ⟨height, hfirst, hlast, herror⟩ := eventsFrom_outside h type (last - first + 1).toNat hbeyond
  refine ⟨height, hfirst, by omega, ?_⟩
  rw [events, hcheck]
  exact herror

/-- Over the whole chain, an event stands where its block and its type say. -/
theorem stands_iff {place : Nat} {height : Nat} {e : Event} :
    (∃ batches batch, events l type (0 : Nat) (l.blocks.length - 1 : Nat) = .ok batches ∧
      batches[height]? = some batch ∧ batch.events[place]? = some e) ↔
    height < l.blocks.length ∧ ((emittedAt es height).filter (·.hasType type))[place]? = some e := by
  have hlength := h.length_blocks
  have hall := events_eq h type (Nat.zero_le (l.blocks.length - 1)) (by omega)
  have hwhole : (l.blocks.drop 0).take (l.blocks.length - 1 - 0 + 1) = l.blocks :=
    List.take_of_length_le (by rw [List.drop_zero]; omega)
  rw [hwhole] at hall
  rw [hall]
  constructor
  · rintro ⟨_, batch, hbatches, hbatch, he⟩
    obtain rfl := Except.ok.inj hbatches
    rw [List.getElem?_map, Option.map_eq_some_iff] at hbatch
    obtain ⟨b, hb, rfl⟩ := hbatch
    rw [batchOf_eq h type hb] at he
    exact ⟨(List.getElem?_eq_some_iff.mp hb).1, he⟩
  · rintro ⟨hheight, he⟩
    have hb : l.blocks[height]? = some l.blocks[height] := List.getElem?_eq_getElem hheight
    refine ⟨_, batchOf es type l.blocks[height], rfl, ?_, ?_⟩
    · rw [List.getElem?_map, hb, Option.map_some]
    · rw [batchOf_eq h type hb]
      exact he

omit type in
/-- Over the whole chain, an event of an execution stands at one place, under its own type. -/
theorem existsUnique_place {ex : Execution} (hex : ex ∈ es) {e : Event} (he : e ∈ ex.events) :
    ∃! place : Text × Nat × Nat, ∃ batches batch,
      events l place.1 (0 : Nat) (l.blocks.length - 1 : Nat) = .ok batches ∧
      batches[place.2.1]? = some batch ∧ batch.events[place.2.2]? = some e := by
  obtain ⟨n, hn⟩ := List.mem_iff_getElem?.mp hex
  have hemitted : e ∈ (emittedAt es (n + 1)).filter (·.hasType e.type) := by
    rw [List.mem_filter, emittedAt, hn]
    exact ⟨he, beq_self_eq_true e.type⟩
  obtain ⟨position, hposition⟩ := List.mem_iff_getElem?.mp hemitted
  have hheight : n + 1 < l.blocks.length := by
    rw [h.length_blocks]
    exact Nat.succ_lt_succ (List.getElem?_eq_some_iff.mp hn).1
  refine ⟨(e.type, n + 1, position), (stands_iff h e.type).mpr ⟨hheight, hposition⟩, ?_⟩
  rintro ⟨type, height, place⟩ hplace
  obtain ⟨_, hstands⟩ := (stands_iff h type).mp hplace
  obtain ⟨hmem, htype⟩ := List.mem_filter.mp (List.mem_of_getElem? hstands)
  obtain rfl : e.type = type := eq_of_beq htype
  -- The transaction of the event tells the execution, and so the height.
  obtain ⟨m, other, rfl, hm, hother⟩ := mem_emittedAt hmem
  have hids : (es.map (·.admission.id)).Nodup := h.keys ▸ l.transactions.nodup
  have hsame : (es.map (·.admission.id))[m]? = (es.map (·.admission.id))[n]? := by
    rw [List.getElem?_map, List.getElem?_map, hm, hn, Option.map_some, Option.map_some,
      ← Execution.transaction_of_mem_events hother, Execution.transaction_of_mem_events he]
  have hlt : m < (es.map (·.admission.id)).length := by
    rw [List.length_map]
    exact (List.getElem?_eq_some_iff.mp hm).1
  obtain rfl := (List.getElem?_inj hlt hids).mp hsame
  have hfilter : ((emittedAt es (m + 1)).filter (·.hasType e.type)).Nodup := (nodup_emittedAt es (m + 1)).filter _
  obtain rfl := (List.getElem?_inj (List.getElem?_eq_some_iff.mp hstands).1 hfilter).mp (hstands.trans hposition.symm)
  rfl

end Reading

/-- Announces two events, and does nothing else. -/
def announcing : Runtime Unit where
  execute _ l m :=
    (.done [.object [("type", .text "A.1.C.E"), ("payload", .object [])],
      .object [("type", .text "A.1.C.F"), ("payload", .object [])]], l.accounts, m)
  evaluate _ _ l m := (.done Runtime.void, l, m)

theorem announcing_legible : announcing.Legible := by
  intro t l m emitted accounts m' h
  obtain rfl := Outcome.done.inj (congrArg Prod.fst h)
  intro v hv
  rcases List.mem_pair.mp hv with rfl | rfl
  · exact ⟨_, "A.1.C.E", [], rfl, rfl, rfl⟩
  · exact ⟨_, "A.1.C.F", [], rfl, rfl, rfl⟩

end Signatory.Embedded
