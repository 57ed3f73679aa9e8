import Mathlib.Data.List.Forall2
import Mathlib.Data.List.Nodup
import Signatory.Proofs.Ledger.Growth
import Signatory.Proofs.Ledger.WellBehaved

/-! The chain of blocks and what it refers to. Every block after the first seals one transaction, and everything that is
stored belongs to one of these blocks. -/

namespace Signatory
set_option autoImplicit false

namespace StoredEvent

/-- The events of one transaction, in their order. -/
def Numbered (id : Bytes) (events : List StoredEvent) : Prop :=
  ∀ (i : Nat) (e : StoredEvent), events[i]? = some e → e.transaction = id ∧ e.eventIndex = i

theorem ofEmitted_numbered {id : Bytes} {position : Nat} {emitted : List Json} {events : List StoredEvent}
    (h : ofEmitted id position emitted = .ok events) (i : Nat) (e : StoredEvent) (he : events[i]? = some e) :
    e.transaction = id ∧ e.eventIndex = (position + i : Nat) := by
  obtain ⟨hlength, heach⟩ := ofEmitted_each h
  obtain ⟨hi, _⟩ := List.getElem?_eq_some_iff.mp he
  obtain ⟨type, _, hevent⟩ := heach i _ (List.getElem?_eq_getElem (hlength ▸ hi))
  obtain rfl := Option.some.inj (he.symm.trans hevent)
  exact ⟨rfl, rfl⟩

end StoredEvent

namespace Engine

variable {μ : Type} (E : Engine μ)

/-- A block seals the transaction with an identifier: the transaction, its result, its collection and its events are
stored, and refer to one another. -/
structure Seals (l : Ledger) (b : StoredBlock) (id : Bytes) : Prop where
  collections : b.collections = [E.collectionId id]
  members : l.collections.find? (E.collectionId id) = some [id]
  transaction : ∃ t, l.transactions.find? id = some t ∧ t.id E.suite = .ok id
  result : ∃ r, l.results.find? id = some r ∧ r.transaction = id ∧ r.block = b.id ∧
    l.events.find? b.id = some r.events ∧ StoredEvent.Numbered id r.events

/-- Blocks that form a chain: each refers to the one before, and is named by all else that it holds. -/
structure Linked (blocks : List StoredBlock) : Prop where
  nonempty : blocks ≠ []
  height : ∀ (i : Nat) (b : StoredBlock), blocks[i]? = some b → b.height = i
  origin : ∀ b : StoredBlock, blocks[0]? = some b → b.parent = zeroId ∧ b.collections = []
  parent : ∀ (i : Nat) (b c : StoredBlock), blocks[i]? = some b → blocks[i + 1]? = some c → c.parent = b.id
  named : ∀ b ∈ blocks, b.id = E.suite.digest b.preimage
  distinct : (blocks.map StoredBlock.id).Nodup

/-- The blocks form a chain, each after the first seals a transaction, and all that is stored belongs to one of these. -/
structure Intact (l : Ledger) : Prop extends E.Linked l.blocks where
  sealed : List.Forall₂ (E.Seals l) l.blocks.tail l.transactions.keys
  results : l.results.keys = l.transactions.keys
  collections : l.collections.keys = l.transactions.keys.map E.collectionId
  events : l.events.keys = l.blocks.tail.map StoredBlock.id

/-- Whatever is stored belongs to exactly one block. -/
structure Placed (l : Ledger) : Prop where
  transaction : ∀ id ∈ l.transactions.keys, ∃! b, b ∈ l.blocks.tail ∧ E.Seals l b id
  result : ∀ id ∈ l.results.keys, ∃! b, b ∈ l.blocks.tail ∧ E.Seals l b id
  collection : ∀ c ∈ l.collections.keys, ∃! b, b ∈ l.blocks ∧ b.collections = [c]
  events : ∀ name ∈ l.events.keys, ∃! b, b ∈ l.blocks.tail ∧ b.id = name

variable {E}

/-- The next block extends the chain, if its name is new. -/
theorem Linked.concat {blocks : List StoredBlock} (h : E.Linked blocks) {collections : List Bytes} {time : Moment}
    (hnew : (E.nextBlock blocks collections time).id ∉ blocks.map StoredBlock.id) :
    E.Linked (blocks ++ [E.nextBlock blocks collections time]) := by
  constructor
  · exact List.append_ne_nil_of_left_ne_nil h.nonempty _
  · intro i b hb
    rcases Lists.getElem?_concat_eq_some hb with hb | ⟨rfl, rfl⟩
    · exact h.height i b hb
    · rfl
  · intro b hb
    rcases Lists.getElem?_concat_eq_some hb with hb | ⟨hempty, _⟩
    · exact h.origin b hb
    · exact absurd (List.length_eq_zero_iff.mp hempty.symm) h.nonempty
  · intro i b c hb hc
    have hi := (List.getElem?_eq_some_iff.mp hc).1
    rw [List.length_append, List.length_singleton] at hi
    rcases Lists.getElem?_concat_eq_some hb with hb | ⟨rfl, _⟩
    · rcases Lists.getElem?_concat_eq_some hc with hc | ⟨hlast, rfl⟩
      · exact h.parent i b c hb hc
      · have hgetLast : blocks.getLast? = some b := by
          rw [List.getLast?_eq_getElem?, ← hlast, Nat.add_sub_cancel, hb]
        simp only [nextBlock, hgetLast, Option.map_some, Option.getD_some]
    · omega
  · intro b hb
    rcases List.mem_append.mp hb with hb | hb
    · exact h.named b hb
    · obtain rfl := List.mem_singleton.mp hb
      rfl
  · rw [List.map_append, List.nodup_append]
    refine ⟨h.distinct, List.nodup_singleton _, ?_⟩
    rintro a ha b hb rfl
    exact hnew (List.mem_singleton.mp hb ▸ ha)

theorem linked_first (time : Moment) : E.Linked [E.nextBlock [] [] time] := by
  have hfirst {i : Nat} {b : StoredBlock} (hb : [E.nextBlock [] [] time][i]? = some b) :
      i = 0 ∧ b = E.nextBlock [] [] time := by
    cases i with
    | zero => exact ⟨rfl, (Option.some.inj hb).symm⟩
    | succ i => cases hb
  constructor
  · exact List.cons_ne_nil _ _
  · intro i b hb
    obtain ⟨rfl, rfl⟩ := hfirst hb
    rfl
  · intro b hb
    obtain ⟨_, rfl⟩ := hfirst hb
    exact ⟨rfl, rfl⟩
  · intro i b c _ hc
    exact absurd (hfirst hc).1 (Nat.succ_ne_zero i)
  · intro b hb
    obtain rfl := List.mem_singleton.mp hb
    rfl
  · exact List.nodup_singleton _

/-- Accounts have no part in the chain. -/
theorem Intact.of_accounts {l : Ledger} (h : E.Intact l) (accounts : Accounts) (accountCounter : Nat) :
    E.Intact { l with accounts, accountCounter } where
  toLinked := h.toLinked
  sealed := h.sealed.imp fun _ _ hb => ⟨hb.collections, hb.members, hb.transaction, hb.result⟩
  results := h.results
  collections := h.collections
  events := h.events

theorem intact_start {service : RawKey} {memory : μ} {s : State μ} (h : E.start service memory = .ok s) :
    E.Intact s.ledger := by
  obtain ⟨time, hledger⟩ := start_eq_ok h
  rw [hledger]
  exact ⟨linked_first time, .nil, rfl, rfl, rfl⟩

theorem Linked.eq_of_id {blocks : List StoredBlock} (h : E.Linked blocks) {b c : StoredBlock} (hb : b ∈ blocks) (hc : c ∈ blocks)
    (hid : b.id = c.id) : b = c :=
  List.inj_on_of_nodup_map h.distinct hb hc hid

theorem Intact.exists_seals {l : Ledger} (h : E.Intact l) {id : Bytes} (hid : id ∈ l.transactions.keys) :
    ∃ b ∈ l.blocks.tail, E.Seals l b id := by
  obtain ⟨i, hi, rfl⟩ := List.mem_iff_getElem.mp hid
  have hlength := h.sealed.length_eq
  have hseals := h.sealed.get (hlength ▸ hi) hi
  exact ⟨_, List.getElem_mem _, hseals⟩

theorem Intact.seals_of_mem {l : Ledger} (h : E.Intact l) {b : StoredBlock} (hb : b ∈ l.blocks.tail) :
    ∃ id ∈ l.transactions.keys, E.Seals l b id := by
  obtain ⟨i, hi, rfl⟩ := List.mem_iff_getElem.mp hb
  have hlength := h.sealed.length_eq
  have hseals := h.sealed.get hi (hlength ▸ hi)
  exact ⟨_, List.getElem_mem _, hseals⟩

/-- The result of a transaction names its block. -/
theorem Intact.existsUnique_seals {l : Ledger} (h : E.Intact l) {id : Bytes} (hid : id ∈ l.transactions.keys) :
    ∃! b, b ∈ l.blocks.tail ∧ E.Seals l b id := by
  obtain ⟨b, hb, hseals⟩ := h.exists_seals hid
  refine ⟨b, ⟨hb, hseals⟩, ?_⟩
  rintro c ⟨hc, hother⟩
  obtain ⟨r, hr, _, hblock, _⟩ := hseals.result
  obtain ⟨r', hr', _, hblock', _⟩ := hother.result
  obtain rfl : r = r' := Option.some.inj (hr.symm.trans hr')
  exact h.eq_of_id (List.mem_of_mem_tail hc) (List.mem_of_mem_tail hb) (hblock'.symm.trans hblock)

theorem Intact.existsUnique_collection {l : Ledger} (h : E.Intact l) {c : Bytes} (hc : c ∈ l.collections.keys) :
    ∃! b, b ∈ l.blocks ∧ b.collections = [c] := by
  rw [h.collections] at hc
  obtain ⟨id, hid, rfl⟩ := List.mem_map.mp hc
  obtain ⟨b, ⟨hb, hseals⟩, hunique⟩ := h.existsUnique_seals hid
  refine ⟨b, ⟨List.mem_of_mem_tail hb, hseals.collections⟩, ?_⟩
  rintro d ⟨hd, hcollections⟩
  obtain ⟨first, rest, hblocks⟩ := List.exists_cons_of_ne_nil h.nonempty
  rw [hblocks, List.mem_cons] at hd
  rcases hd with rfl | hd
  · -- The first block has no collection.
    have horigin := (h.origin d (hblocks ▸ rfl)).2
    rw [horigin] at hcollections
    cases hcollections
  · have hd : d ∈ l.blocks.tail := by rwa [hblocks]
    obtain ⟨other, _, hother⟩ := h.seals_of_mem hd
    have hsame : E.collectionId other = E.collectionId id :=
      (List.cons.inj (hother.collections.symm.trans hcollections)).1
    have hmembers := hother.members
    rw [hsame, hseals.members] at hmembers
    obtain rfl : id = other := (List.cons.inj (Option.some.inj hmembers)).1
    exact hunique d ⟨hd, hother⟩

theorem Intact.placed {l : Ledger} (h : E.Intact l) : E.Placed l where
  transaction _ hid := h.existsUnique_seals hid
  result _ hid := h.existsUnique_seals (h.results ▸ hid)
  collection _ hc := h.existsUnique_collection hc
  events name hname := by
    rw [h.events] at hname
    obtain ⟨b, hb, rfl⟩ := List.mem_map.mp hname
    refine ⟨b, ⟨hb, rfl⟩, ?_⟩
    rintro c ⟨hc, hid⟩
    exact h.eq_of_id (List.mem_of_mem_tail hc) (List.mem_of_mem_tail hb) hid

theorem Intact.anchored {l : Ledger} (h : E.Intact l) : E.Anchored l where
  height := h.height
  named := h.named
  results _ hid := h.results ▸ hid
  collections c hc := by
    rw [h.collections] at hc
    obtain ⟨id, hid, rfl⟩ := List.mem_map.mp hc
    exact ⟨id, hid, rfl⟩
  events name hname := by
    rw [h.events] at hname
    exact ((List.tail_sublist _).map _).subset hname

theorem Seals.of_extends {l l' : Ledger} {b : StoredBlock} {id : Bytes} (h : E.Seals l b id) (hextends : l.Extends l') :
    E.Seals l' b id := by
  obtain ⟨hcollections, hmembers, ⟨t, ht, hid⟩, r, hr, htransaction, hblock, hevents, hnumbered⟩ := h
  refine ⟨hcollections, hextends.collections _ _ hmembers, ⟨t, hextends.transactions _ _ ht, hid⟩, ?_⟩
  exact ⟨r, hextends.results _ _ hr, htransaction, hblock, hextends.events _ _ hevents, hnumbered⟩

/-- One block more keeps the ledger intact: nothing that is stored is overwritten. -/
theorem Intact.sealed_block {l : Ledger} {x : Admission} {accounts : Accounts} {time : Moment}
    {events : List StoredEvent} {message : Text} (h : E.Intact l) (hadmitted : x.Admitted E.suite l)
    (hnumbered : StoredEvent.Numbered x.id events)
    (hfree : E.suite.CollisionFree (E.sealed l x accounts time events message).Digests) :
    E.Intact (E.sealed l x accounts time events message) := by
  have hfresh := hadmitted.fits.fresh
  obtain ⟨hblock, hcollection⟩ := h.anchored.fresh hfresh hfree
  have hextends := (Growing.sealed accounts time events message).extends h.anchored hfresh hfree
  have hresult : x.id ∉ l.results.keys := h.results ▸ hfresh
  have hevents : (E.nextBlock l.blocks [E.collectionId x.id] time).id ∉ l.events.keys :=
    fun hold => hblock (h.anchored.events _ hold)
  have htail : (E.sealed l x accounts time events message).blocks.tail =
      l.blocks.tail ++ [E.nextBlock l.blocks [E.collectionId x.id] time] := List.tail_append_of_ne_nil h.nonempty
  obtain ⟨hkeys, _⟩ := transactions_sealed (E := E) hfresh accounts time events message
  refine ⟨h.toLinked.concat hblock, ?_, ?_, ?_, ?_⟩
  · rw [htail, hkeys]
    refine List.rel_append (h.sealed.imp fun _ _ hseals => hseals.of_extends hextends) (.cons ?_ .nil)
    exact ⟨rfl, OrderedMap.find?_insert_self, ⟨_, OrderedMap.find?_insert_self, hadmitted.named⟩, _,
      OrderedMap.find?_insert_self, rfl, rfl, OrderedMap.find?_insert_self, hnumbered⟩
  · have hresults : (E.sealed l x accounts time events message).results.keys = l.results.keys ++ [x.id] :=
      OrderedMap.keys_insert_of_notMem hresult
    rw [hresults, hkeys, h.results]
  · have hcollections : (E.sealed l x accounts time events message).collections.keys =
        l.collections.keys ++ [E.collectionId x.id] := OrderedMap.keys_insert_of_notMem hcollection
    rw [hcollections, hkeys, h.collections, List.map_append, List.map_singleton]
  · have hstored : (E.sealed l x accounts time events message).events.keys =
        l.events.keys ++ [(E.nextBlock l.blocks [E.collectionId x.id] time).id] :=
      OrderedMap.keys_insert_of_notMem hevents
    rw [hstored, htail, h.events, List.map_append, List.map_singleton]

end Engine

end Signatory
