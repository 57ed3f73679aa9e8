import Signatory.Proofs.Gateway.Reading
import Signatory.Proofs.Lists

/-! Events of a range of heights, from a node that may report anything that can be read. Each height of the range has
one batch, of the block that the node has there, and no batch has events but those of a reported one. -/

namespace Signatory
set_option autoImplicit false
open Cbor Wire Outcome

namespace Node

variable {ν : Type} (N : Node ν)

/-- In some of its states, which its answers do not take it out of, a node answers the heights of a range with
well-formed blocks of these heights. -/
def HasBlocks (states : ν → Prop) (first last : Int) : Prop :=
  ∀ h, first ≤ h → h ≤ last → ∀ n, states n → ∃ b n', N.GivesAt n h b n' ∧ states n'

variable {N}

theorem HasBlocks.exists_gives {states : ν → Prop} {first last : Int} (h : N.HasBlocks states first last) (count : Nat)
    {height : Int} (hfirst : first ≤ height) (hlast : height + count ≤ last + 1) {n : ν} (hn : states n) :
    ∃ blocks, N.Gives n height blocks ∧ blocks.length = count := by
  induction count generalizing height n with
  | zero => exact ⟨[], .nil, rfl⟩
  | succ count ih =>
    obtain ⟨b, n', hgives, hn'⟩ := h height hfirst (by omega) n hn
    obtain ⟨blocks, hrest, hlength⟩ := ih (show first ≤ height + 1 by omega) (by omega) hn'
    exact ⟨b :: blocks, .cons hgives hrest, congrArg (· + 1) hlength⟩

theorem Gives.height {n : ν} {height : Int} {blocks : List Block} (h : N.Gives n height blocks) {i : Nat} {b : Block}
    (hb : blocks[i]? = some b) : b.height = height + i := by
  induction h generalizing i with
  | nil => cases hb
  | cons hgives _ ih =>
    cases i with
    | zero =>
      obtain rfl := Option.some.inj hb
      obtain ⟨_, _, _, _, _, hheight⟩ := hgives
      rw [hheight, Int.natCast_zero, Int.add_zero]
    | succ i =>
      rw [ih hb, Int.natCast_succ, Int.add_assoc, Int.add_comm 1]

end Node

/-- A batch has the height and the block of an item, and the events that the item lists, in their order. -/
structure BlockEvents.ReadFrom (d : BlockEvents) (item : Value) : Prop where
  height : ∃ field, required "block_height" item = .ok field ∧ toInt field = .ok d.height
  block : ∃ field, required "block_id" item = .ok field ∧ bytesField "block_id" field = .ok d.block
  timestamp : ∃ field, required "block_timestamp" item = .ok field ∧ Moment.ofWire field = .ok d.timestamp
  events : ∃ field listed, optional "events" (.list []) item = .ok field ∧ toItems field = .ok listed ∧
    List.Forall₂ (fun e read => Event.ofWire e = .ok read) listed d.events

theorem BlockEvents.readFrom_of_ofWire {item : Value} {d : BlockEvents} (h : ofWire item = .ok d) :
    d.ReadFrom item := by
  simp only [ofWire, bind_eq_ok, pure_eq_ok, mapM_eq_ok, Checked.settle_eq_ok] at h
  obtain ⟨block, hblock, height, hheight, _, hheight', timestamp, htimestamp, _, htimestamp', events, hevents, listed,
    hlisted, _, hread, _, hblock', rfl⟩ := h
  exact ⟨⟨height, hheight, hheight'⟩, ⟨block, hblock, hblock'⟩, ⟨timestamp, htimestamp, htimestamp'⟩,
    ⟨events, listed, hevents, hlisted, hread⟩⟩

namespace Remote

/-- A message has an item for a batch. -/
def HasBatch (message item : Value) : Prop :=
  ∃ field items, optional "results" (.list []) message = .ok field ∧ toItems field = .ok items ∧ item ∈ items

theorem exists_hasBatch {message : Value} {batches : List BlockEvents} (h : reported message = .ok batches)
    {d : BlockEvents} (hd : d ∈ batches) : ∃ item, HasBatch message item ∧ d.ReadFrom item := by
  simp only [reported, bind_eq_ok, mapM_eq_ok] at h
  obtain ⟨field, hfield, items, hitems, hall⟩ := h
  obtain ⟨item, hitem, hread⟩ := Lists.exists_of_mem_right hall hd
  exact ⟨item, ⟨field, items, hfield, hitems, hitem⟩, BlockEvents.readFrom_of_ofWire hread⟩

theorem mem_of_entryOf {batches : List BlockEvents} {b : Block} (h : (entryOf batches b).events ≠ []) :
    entryOf batches b ∈ batches := by
  cases hbatch : batchAt batches b.height with
  | none =>
    rw [entryOf_of_none (batchAt_eq_none.mp hbatch)] at h
    exact absurd rfl h
  | some d =>
    have hlast := batchAt_eq_some.mp hbatch
    rw [entryOf_of_last hlast] at h ⊢
    by_cases hblock : d.block = b.id
    · obtain ⟨before, after, hsplit, _⟩ := hlast
      rw [if_pos hblock, hsplit]
      exact List.mem_append_right before List.mem_cons_self
    · rw [if_neg hblock] at h
      exact absurd rfl h

section Events

variable {ν : Type} {R : Remote ν} {states : ν → Prop} {first last : Int} {c : Client (State ν)}

/-- Of a node with a well-formed block at each height of a range, whatever report it has that can be read, the events
come as one batch for each height in turn, of the block that the node gave for it; and a batch that has events is one of
the report, with the events listed there in their order. -/
theorem range_events_sound (hrange : first ≤ last) (hnode : R.node.HasBlocks states first last) {type : Text}
    {message : Value} {n : ν}
    (hanswers : R.node.Answers "GetEventsForHeightRange"
      (mapOf [("type", .text type), ("start_height", .int first), ("end_height", .int last)]) c.backend.node message n)
    (hn : states n) (hmessage : MayHave message "results" (ItemsOf BlockEvents.Legible)) :
    ∃ blocks entries, R.node.Gives n first blocks ∧ (R.gateway.events type first last c).1 = .ok entries ∧
      (entries.length : Int) = last - first + 1 ∧
      ∀ (i : Nat) (entry : BlockEvents), entries[i]? = some entry →
        entry.height = first + i ∧ (∃ b, blocks[i]? = some b ∧ b.height = first + i ∧ entry.block = b.id) ∧
        (entry.events ≠ [] → ∃ item, HasBatch message item ∧ entry.ReadFrom item) := by
  obtain ⟨batches, hbatches⟩ := (exists_reported_iff message).mpr hmessage
  obtain ⟨blocks, hgives, hcount⟩ := hnode.exists_gives (last - first + 1).toNat (Int.le_refl first) (by omega) hn
  have hevents := events_of_gives hrange hanswers hbatches hcount hgives
  refine ⟨blocks, _, hgives, hevents, ?_, ?_⟩
  · rw [List.length_map, hcount]
    omega
  · intro i entry hentry
    rw [List.getElem?_map, Option.map_eq_some_iff] at hentry
    obtain ⟨b, hb, rfl⟩ := hentry
    obtain ⟨hheight, hblock⟩ := of_entryOf batches b
    exact ⟨hheight.trans (hgives.height hb), ⟨b, hb, hgives.height hb, hblock⟩,
      fun hfull => exists_hasBatch hbatches (mem_of_entryOf hfull)⟩

end Events

-- A node with blocks at heights 2 and 3, and with batches of the first of these and of an abandoned block.
def heightAnswer (height : Int) : Bytes :=
  framed [("block", fieldBytes [("id", encode (.bytes [UInt8.ofNat height.toNat])), ("parent_id", encode (.bytes [1])),
    ("height", encode (.int height)), ("timestamp", fieldBytes [])])]

def heightRequest (height : Int) : Value := mapOf [("height", .int height)]

def twoBlocksNode : Node Unit where
  answer method request _ :=
    let block := heightAnswer (if request = Frame.wrap (encode (heightRequest 2)) then 2 else 3)
    (.ok (if method = ("GetBlockByHeight" : Text) then block else twoBatches abandonedBatch ownBatch), ())
  unwritten := .unanswered
  unread := .unanswered

def twoBlocksRemote : Remote Unit := { onlyBlockRemote [] with node := twoBlocksNode }

theorem twoBlocks_hasBlocks : twoBlocksNode.HasBlocks (fun _ => True) 2 3 := by
  intro h hfirst hlast n _
  have hh : h = 2 ∨ h = 3 := by omega
  have hread : ((decodeMessage (heightAnswer h) >>= required "block") >>= Block.ofWire).toOption.map Block.height =
      some h := by
    rcases hh with rfl | rfl <;> decide +kernel
  have hanswer : twoBlocksNode.answer "GetBlockByHeight" (Frame.wrap (encode (heightRequest h))) n =
      (.ok (heightAnswer h), ()) := by
    rcases hh with rfl | rfl
    · simp [twoBlocksNode]
    · have hother : Frame.wrap (encode (heightRequest 3)) ≠ Frame.wrap (encode (heightRequest 2)) := by decide +kernel
      simp [twoBlocksNode, hother]
  obtain ⟨b, hb, hheight⟩ := Option.map_eq_some_iff.mp hread
  obtain ⟨item, hitem, hblock⟩ := bind_eq_ok.mp (toOption_eq_some.mp hb)
  obtain ⟨message, hmessage, hitem⟩ := bind_eq_ok.mp hitem
  exact ⟨b, (), ⟨message, item, ⟨_, _, rfl, hanswer, hmessage⟩, hitem, hblock, hheight⟩, trivial⟩

/-- One event at height 2, whose other batch is dropped, and none at height 3. -/
theorem range_events_sound_two :
    ∃ full empty item, (twoBlocksRemote.gateway.events "A.1.C.E" 2 3 (.start ⟨(), []⟩)).1 = .ok [full, empty] ∧
      full.height = 2 ∧ full.block = [2] ∧ full.events.length = 1 ∧ full.ReadFrom item ∧
      empty.height = 3 ∧ empty.block = [3] ∧ empty.events = [] := by
  have hreport : (decodeMessage (twoBatches abandonedBatch ownBatch) >>= reported).toOption.isSome = true := by
    decide +kernel
  obtain ⟨batches, hbatches⟩ := Option.isSome_iff_exists.mp hreport
  obtain ⟨message, hmessage, hreported⟩ := bind_eq_ok.mp (toOption_eq_some.mp hbatches)
  have hanswers : twoBlocksRemote.node.Answers "GetEventsForHeightRange"
      (mapOf [("type", .text "A.1.C.E"), ("start_height", .int 2), ("end_height", .int 3)]) () message () :=
    ⟨_, _, rfl, rfl, hmessage⟩
  obtain ⟨blocks, entries, _, hevents, _, hall⟩ := range_events_sound (R := twoBlocksRemote) (c := .start ⟨(), []⟩)
    (by decide) twoBlocks_hasBlocks hanswers trivial ((exists_reported_iff message).mp ⟨batches, hreported⟩)
  have hshapes : (twoBlocksRemote.gateway.events "A.1.C.E" 2 3 (.start ⟨(), []⟩)).1.toOption.map (List.map shape) =
      some [(2, [2], 1), (3, [3], 0)] := by decide +kernel
  rw [hevents] at hshapes
  obtain ⟨full, empty, rfl, hfull, hempty⟩ := exists_pair_of_map (Option.some.inj hshapes)
  simp only [shape, Prod.mk.injEq, List.length_eq_zero_iff] at hfull hempty
  obtain ⟨hheight, hblock, hone⟩ := hfull
  obtain ⟨_, _, hread⟩ := hall 0 full rfl
  obtain ⟨item, _, hread⟩ := hread (List.ne_nil_of_length_pos (hone ▸ Nat.one_pos))
  exact ⟨full, empty, item, hevents, hheight, hblock, hone, hread, hempty⟩

end Remote

end Signatory
