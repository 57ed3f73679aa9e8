import Signatory.Gateway.Remote
import Signatory.Proofs.Outcome
import Signatory.Proofs.Poll

/-! Events of a node. What it answers may hold several batches of one height, those of abandoned blocks among them. The
last batch of a height counts, if it is of the block that the node has at that height. -/

namespace Signatory
set_option autoImplicit false
open Cbor Wire Outcome

namespace Node

variable {ν : Type} (N : Node ν)

/-- A node answers a request with a message. -/
def Answers (method : Text) (request : Value) (n : ν) (message : Value) (n' : ν) : Prop :=
  ∃ data response, encodeMessage request = .ok data ∧ N.answer method data n = (.ok response, n') ∧
    decodeMessage response = .ok message

/-- In some of its states, which these answers do not take it out of, a node gives the blocks of a chain at the heights
of a range. -/
structure Serves (states : ν → Prop) (chain : Int → Block) (first last : Int) : Prop where
  height : ∀ h, first ≤ h → h ≤ last → (chain h).height = h
  answer : ∀ h, first ≤ h → h ≤ last → ∀ n, states n → ∃ message item n',
    N.Answers "GetBlockByHeight" (mapOf [("height", .int h)]) n message n' ∧ states n' ∧
    required "block" message = .ok item ∧ Block.ofWire item = .ok (chain h)

/-- A node answers a height with a well-formed block of that height. -/
def GivesAt (n : ν) (h : Int) (b : Block) (n' : ν) : Prop :=
  ∃ message item, N.Answers "GetBlockByHeight" (mapOf [("height", .int h)]) n message n' ∧
    required "block" message = .ok item ∧ Block.ofWire item = .ok b ∧ b.height = h

/-- From a state on, a node gives these blocks for the heights from one on. -/
inductive Gives : ν → Int → List Block → Prop where
  | nil {n : ν} {h : Int} : Gives n h []
  | cons {n n' : ν} {h : Int} {b : Block} {blocks : List Block} : N.GivesAt n h b n' → Gives n' (h + 1) blocks →
      Gives n h (b :: blocks)

variable {N}

theorem Serves.gives {states : ν → Prop} {chain : Int → Block} {first last : Int}
    (hserves : N.Serves states chain first last) (count : Nat) {height : Int} (hfirst : first ≤ height)
    (hlast : height + count ≤ last + 1) {n : ν} (hn : states n) :
    N.Gives n height ((List.range count).map fun i : Nat => chain (height + i)) := by
  induction count generalizing height n with
  | zero => exact .nil
  | succ count ih =>
    obtain ⟨message, item, n', hanswers, hn', hitem, hblock⟩ := hserves.answer height hfirst (by omega) n hn
    have hrest := ih (show first ≤ height + 1 by omega) (by omega) hn'
    have hheight := hserves.height height hfirst (by omega)
    rw [List.range_succ_eq_map, List.map_cons, List.map_map, Int.natCast_zero, Int.add_zero]
    refine .cons ⟨message, item, hanswers, hitem, hblock, hheight⟩ ?_
    convert hrest using 2
    funext i
    rw [Function.comp_apply, Nat.succ_eq_add_one, Int.natCast_add, Int.add_assoc, Int.add_comm 1]
    rfl

end Node

namespace BlockEvents

/-- A batch of the events of a block. -/
def Of (d : BlockEvents) (b : Block) : Prop := d.height = b.height ∧ d.block = b.id

/-- The last of some batches that has a height. -/
def LastAt (batches : List BlockEvents) (height : Int) (d : BlockEvents) : Prop :=
  ∃ before after, batches = before ++ d :: after ∧ d.height = height ∧ ∀ other ∈ after, other.height ≠ height

end BlockEvents

namespace Remote
open BlockEvents (LastAt)

def reported (message : Value) : Except Error (List BlockEvents) := do
  let items ← toItems (← optional "results" (.list []) message)
  items.mapM BlockEvents.ofWire

/-- The events of a block are not lost: if there are batches of it, the entry has the events of one of these. -/
def Kept (batches : List BlockEvents) (b : Block) (entry : BlockEvents) : Prop :=
  (∃ d ∈ batches, d.Of b) → ∃ d ∈ batches, d.Of b ∧ entry.events = d.events

/-- The entry of a block. -/
def entryOf (batches : List BlockEvents) (b : Block) : BlockEvents :=
  match batchAt batches b.height with
  | none => b.noEvents
  | some d => if d.block = b.id then d else b.noEvents

section Entry

variable {batches : List BlockEvents} {b : Block}

theorem batchAt_eq_none {height : Int} : batchAt batches height = none ↔ ∀ d ∈ batches, d.height ≠ height := by
  simp only [batchAt, List.find?_eq_none, List.mem_reverse, decide_eq_true_eq, ne_eq]

theorem batchAt_eq_some {height : Int} {d : BlockEvents} :
    batchAt batches height = some d ↔ LastAt batches height d := by
  unfold batchAt LastAt
  rw [List.find?_eq_some_iff_append, decide_eq_true_eq]
  constructor
  · rintro ⟨hheight, after, before, hsplit, hafter⟩
    refine ⟨before.reverse, after.reverse, ?_, hheight, ?_⟩
    · rw [← List.reverse_reverse batches, hsplit]
      simp
    · intro other hother
      simpa using hafter other (List.mem_reverse.mp hother)
  · rintro ⟨before, after, rfl, hheight, hafter⟩
    refine ⟨hheight, after.reverse, before.reverse, ?_, ?_⟩
    · simp
    · intro other hother
      simpa using hafter other (List.mem_reverse.mp hother)

theorem entryOf_of_none (h : ∀ d ∈ batches, d.height ≠ b.height) : entryOf batches b = b.noEvents := by
  rw [entryOf, batchAt_eq_none.mpr h]

theorem entryOf_of_last {d : BlockEvents} (h : LastAt batches b.height d) :
    entryOf batches b = if d.block = b.id then d else b.noEvents := by
  rw [entryOf, batchAt_eq_some.mpr h]

theorem of_entryOf (batches : List BlockEvents) (b : Block) : (entryOf batches b).Of b := by
  unfold entryOf
  cases hbatch : batchAt batches b.height with
  | none => exact ⟨rfl, rfl⟩
  | some d =>
    obtain ⟨_, _, _, hheight, _⟩ := batchAt_eq_some.mp hbatch
    by_cases hblock : d.block = b.id
    · simp only [if_pos hblock]
      exact ⟨hheight, hblock⟩
    · simp only [if_neg hblock]
      exact ⟨rfl, rfl⟩

/-- Events are lost where a batch of another block comes last. -/
theorem kept_iff : Kept batches b (entryOf batches b) ↔
    ¬((∃ d, LastAt batches b.height d ∧ d.block ≠ b.id) ∧ (∃ d ∈ batches, d.Of b) ∧
      ∀ d ∈ batches, d.Of b → d.events ≠ []) := by
  cases hbatch : batchAt batches b.height with
  | none =>
    have hnone := batchAt_eq_none.mp hbatch
    have habsent : ¬∃ d ∈ batches, d.Of b := fun ⟨d, hd, hof⟩ => hnone d hd hof.1
    exact iff_of_true (fun h => absurd h habsent) fun h => habsent h.2.1
  | some d =>
    have hlast := batchAt_eq_some.mp hbatch
    rw [entryOf_of_last hlast]
    by_cases hblock : d.block = b.id
    · obtain ⟨before, after, hsplit, hheight, _⟩ := hlast
      have hmem : d ∈ batches := hsplit ▸ List.mem_append_right before List.mem_cons_self
      rw [if_pos hblock]
      refine iff_of_true (fun _ => ⟨d, hmem, ⟨hheight, hblock⟩, rfl⟩) ?_
      rintro ⟨⟨other, hother, hne⟩, _⟩
      obtain rfl : d = other := Option.some.inj (hbatch.symm.trans (batchAt_eq_some.mpr hother))
      exact hne hblock
    · rw [if_neg hblock]
      constructor
      · rintro hkept ⟨_, hthere, hfull⟩
        obtain ⟨other, hother, hof, hevents⟩ := hkept hthere
        exact hfull other hother hof hevents.symm
      · intro h hthere
        by_contra hlost
        refine h ⟨⟨d, hlast, hblock⟩, hthere, ?_⟩
        intro other hother hof hempty
        exact hlost ⟨other, hother, hof, hempty.symm⟩

end Entry

section Calls

variable {ν : Type} (R : Remote ν) {c : Client (State ν)}

theorem reading_of_ok {method : Text} {response : Bytes} {message : Value} (h : decodeMessage response = .ok message) :
    R.reading method (.ok response) = .ok message := by
  rw [reading, h]
  rfl

theorem call_of_answers {method : Text} {request message : Value} {n : ν}
    (h : R.node.Answers method request c.backend.node message n) :
    ∃ c', R.call method request c = (.ok message, c') ∧ c'.backend.node = n := by
  obtain ⟨data, response, hdata, hanswer, hmessage⟩ := h
  unfold call Client.onBackend
  simp only [hdata, hanswer, R.reading_of_ok hmessage]
  exact ⟨_, rfl, rfl⟩

variable {R} (batches : List BlockEvents)

theorem eventsAt_of_givesAt {height : Int} {b : Block} {n : ν} (h : R.node.GivesAt c.backend.node height b n) :
    ∃ c', R.eventsAt batches height c = (.ok (entryOf batches b), c') ∧ c'.backend.node = n := by
  obtain ⟨message, item, hanswers, hitem, hblock, rfl⟩ := h
  obtain ⟨c', hcall, hc'⟩ := R.call_of_answers hanswers
  have hblockAt : R.blockAt b.height c = (.ok b, c') := by
    unfold blockAt fetch
    rw [Action.bind_of_ok hcall, hitem]
    exact congrArg (fun r => (r, c')) hblock
  unfold eventsAt entryOf
  rw [Action.bind_of_ok hblockAt]
  cases batchAt batches b.height with
  | none => exact ⟨c', rfl, hc'⟩
  | some d =>
    by_cases hof : d.block = b.id
    · simp only [if_pos hof]
      exact ⟨c', rfl, hc'⟩
    · simp only [if_neg hof]
      exact ⟨_, rfl, hc'⟩

theorem eventsFrom_of_gives {height : Int} {blocks : List Block} (h : R.node.Gives c.backend.node height blocks) :
    (R.eventsFrom batches blocks.length height c).1 = .ok (blocks.map (entryOf batches)) := by
  generalize hn : c.backend.node = n at h
  induction h generalizing c with
  | nil => rfl
  | @cons _ _ height b blocks hgives _ ih =>
    subst hn
    obtain ⟨c', hentry, hc'⟩ := eventsAt_of_givesAt batches hgives
    have hrest := ih hc'
    rcases hran : R.eventsFrom batches blocks.length (height + 1) c' with ⟨answer, c''⟩
    rw [hran] at hrest
    obtain rfl : answer = .ok _ := hrest
    rw [List.length_cons, eventsFrom, Action.bind_of_ok hentry, Action.bind_of_ok hran]
    rfl

/-- The blocks that a node gives for the heights of a range decide what of its report counts. -/
theorem events_of_gives {first last : Int} (hrange : first ≤ last) {type : Text} {message : Value} {n : ν}
    (hanswers : R.node.Answers "GetEventsForHeightRange"
      (mapOf [("type", .text type), ("start_height", .int first), ("end_height", .int last)]) c.backend.node message n)
    {batches : List BlockEvents} (hbatches : reported message = .ok batches) {blocks : List Block}
    (hcount : blocks.length = (last - first + 1).toNat) (hgives : R.node.Gives n first blocks) :
    (R.gateway.events type first last c).1 = .ok (blocks.map (entryOf batches)) := by
  obtain ⟨results, hresults, hitems⟩ := bind_eq_ok.mp hbatches
  obtain ⟨items, hitems, hmap⟩ := bind_eq_ok.mp hitems
  obtain ⟨c', hcall, rfl⟩ := R.call_of_answers hanswers
  have hcheck : Gateway.checkRange first last = .ok () := if_neg (by omega)
  have hevents : R.events type first last c = R.eventsFrom batches (last - first + 1).toNat first c' := by
    rw [events, Action.lift_bind_of_ok hcheck, Action.bind_of_ok hcall, Action.lift_bind_of_ok hresults,
      Action.lift_bind_of_ok hitems, Action.lift_bind_of_ok hmap]
  have hopen : R.gateway.events type first last c = R.events type first last c := rfl
  rw [hopen, hevents, ← hcount]
  exact eventsFrom_of_gives batches hgives

theorem events_of_serves {states : ν → Prop} {chain : Int → Block} {first last : Int}
    (hserves : R.node.Serves states chain first last) (hrange : first ≤ last) {type : Text} {message : Value} {n : ν}
    (hanswers : R.node.Answers "GetEventsForHeightRange"
      (mapOf [("type", .text type), ("start_height", .int first), ("end_height", .int last)]) c.backend.node message n)
    (hn : states n) {batches : List BlockEvents} (hbatches : reported message = .ok batches) :
    (R.gateway.events type first last c).1 =
      .ok ((List.range (last - first + 1).toNat).map fun i : Nat => entryOf batches (chain (first + i))) := by
  have hgives := hserves.gives (last - first + 1).toNat (Int.le_refl first) (by omega) hn
  rw [events_of_gives hrange hanswers hbatches (by rw [List.length_map, List.length_range]) hgives, List.map_map]
  rfl

end Calls

-- A node with one block, at height 2, and with batches of it and of an abandoned block.
def fieldBytes (fields : List (Text × Bytes)) : Bytes :=
  UInt8.ofNat (0xA0 + fields.length) :: fields.flatMap fun f => encode (.text f.1) ++ f.2

def listBytes (items : List Bytes) : Bytes := UInt8.ofNat (0x80 + items.length) :: items.flatten

/-- A message in its frame, with two bytes for its length. -/
def framed (fields : List (Text × Bytes)) : Bytes :=
  let payload := fieldBytes fields
  0x0A :: UInt8.ofNat (128 + payload.length % 128) :: UInt8.ofNat (payload.length / 128) :: payload

def onlyBlock : Block := ⟨[2], [1], 2, ⟨0, some 0⟩, []⟩

def blockAnswer : Bytes :=
  framed [("block", fieldBytes [("id", encode (.bytes [2])), ("parent_id", encode (.bytes [1])),
    ("height", encode (.int 2)), ("timestamp", fieldBytes [])])]

def batchBytes (block : Bytes) (events : List Bytes) : Bytes :=
  fieldBytes [("block_id", encode (.bytes block)), ("block_height", encode (.int 2)),
    ("block_timestamp", fieldBytes []), ("events", listBytes events)]

def ownBatch : Bytes :=
  batchBytes [2] [fieldBytes [("type", encode (.text "A.1.C.E")), ("transaction_id", encode (.bytes [9])),
    ("transaction_index", encode (.int 0)), ("event_index", encode (.int 0)),
    ("payload", encode (.bytes (Text.Utf8.encode "\x7b\"type\":\"Void\"\x7d")))]]

def abandonedBatch : Bytes := batchBytes [3] []

def twoBatches (first second : Bytes) : Bytes := framed [("results", listBytes [first, second])]

def onlyBlockNode (report : Bytes) : Node Unit where
  answer method _ _ := (.ok (if method = ("GetBlockByHeight" : Text) then blockAnswer else report), ())
  unwritten := .unanswered
  unread := .unanswered

def onlyBlockRemote (report : Bytes) : Remote Unit where
  node := onlyBlockNode report
  host := "localhost:1"
  secure := false
  apiKey := none
  timeout := .int 1
  pollInterval := .int 1

theorem answers_of_decode {report : Bytes} {method : Text} {request message : Value}
    (hrequest : request.isUnicode = true)
    (h : decodeMessage (if method = ("GetBlockByHeight" : Text) then blockAnswer else report) = .ok message) :
    (onlyBlockNode report).Answers method request () message () := by
  refine ⟨Frame.wrap (encode request), _, ?_, rfl, h⟩
  rw [encodeMessage, encode?, if_pos hrequest]

theorem onlyBlock_serves (report : Bytes) : (onlyBlockNode report).Serves (fun _ => True) (fun _ => onlyBlock) 2 2 := by
  have hanswer : ((decodeMessage blockAnswer >>= required "block") >>= Block.ofWire).toOption = some onlyBlock := by
    decide +kernel
  obtain ⟨item, hitem, hblock⟩ := bind_eq_ok.mp (toOption_eq_some.mp hanswer)
  obtain ⟨message, hmessage, hitem⟩ := bind_eq_ok.mp hitem
  constructor
  · intro h hfirst hlast
    exact Int.le_antisymm hfirst hlast
  · intro h _ _ _ _
    exact ⟨message, item, (), answers_of_decode rfl hmessage, trivial, hitem, hblock⟩

def shape (d : BlockEvents) : Int × Bytes × Nat := (d.height, d.block, d.events.length)

theorem reported_of_shapes {report : Bytes} {shapes : List (Int × Bytes × Nat)}
    (h : (decodeMessage report >>= reported).toOption.map (List.map shape) = some shapes) (type : Text)
    (htype : (Value.text type).isUnicode = true) :
    ∃ message batches, (onlyBlockNode report).Answers "GetEventsForHeightRange"
        (mapOf [("type", .text type), ("start_height", .int 2), ("end_height", .int 2)]) () message () ∧
      reported message = .ok batches ∧ batches.map shape = shapes := by
  obtain ⟨batches, hbatches, hshapes⟩ := Option.map_eq_some_iff.mp h
  obtain ⟨message, hmessage, hreported⟩ := bind_eq_ok.mp (toOption_eq_some.mp hbatches)
  refine ⟨message, batches, answers_of_decode ?_ hmessage, hreported, hshapes⟩
  simp only [mapOf, List.map_cons, List.map_nil, Value.isUnicode, Value.areEntriesUnicode] at htype ⊢
  rw [htype]
  rfl

theorem exists_pair_of_map {α β : Type} {f : α → β} {xs : List α} {y z : β} (h : xs.map f = [y, z]) :
    ∃ a b, xs = [a, b] ∧ f a = y ∧ f b = z := by
  obtain ⟨a, rest, rfl, ha, hrest⟩ := List.map_eq_cons_iff.mp h
  obtain ⟨b, rfl, hb⟩ := List.map_eq_singleton_iff.mp hrest
  exact ⟨a, b, rfl, ha, hb⟩

/-- Of a node with a well-formed block at each height, the events of a range come as one batch for each height, which is
the last that the answer has for it if that is of the block, and an empty one of the block otherwise. So the events of a
block are kept, unless a batch of another block comes after all of its own. -/
theorem range_events_kept_iff {ν : Type} {R : Remote ν} {states : ν → Prop} {chain : Int → Block} {first last : Int}
    (hrange : first ≤ last) (hserves : R.node.Serves states chain first last) {type : Text} {message : Value}
    {c : Client (State ν)} {n : ν} {batches : List BlockEvents}
    (hanswers : R.node.Answers "GetEventsForHeightRange"
      (mapOf [("type", .text type), ("start_height", .int first), ("end_height", .int last)]) c.backend.node message n)
    (hn : states n) (hbatches : reported message = .ok batches) :
    ∃ entries, (R.gateway.events type first last c).1 = .ok entries ∧ (entries.length : Int) = last - first + 1 ∧
      ∀ (i : Nat) (entry : BlockEvents), entries[i]? = some entry →
        let b := chain (first + i)
        b.height = first + i ∧ entry.Of b ∧
        ((∀ d ∈ batches, d.height ≠ b.height) → entry = b.noEvents) ∧
        (∀ d, LastAt batches b.height d → entry = if d.block = b.id then d else b.noEvents) ∧
        (Kept batches b entry ↔
          ¬((∃ d, LastAt batches b.height d ∧ d.block ≠ b.id) ∧ (∃ d ∈ batches, d.Of b) ∧
            ∀ d ∈ batches, d.Of b → d.events ≠ [])) := by
  refine ⟨_, events_of_serves hserves hrange hanswers hn hbatches, ?_, ?_⟩
  · rw [List.length_map, List.length_range]
    omega
  · intro i entry hentry b
    rw [List.getElem?_map, Option.map_eq_some_iff] at hentry
    obtain ⟨j, hj, rfl⟩ := hentry
    obtain ⟨hi, hsame⟩ := List.getElem?_eq_some_iff.mp hj
    rw [List.getElem_range] at hsame
    subst hsame
    rw [List.length_range] at hi
    refine ⟨hserves.height _ (by omega) (by omega), of_entryOf batches b, entryOf_of_none, ?_, kept_iff⟩
    exact fun d hd => entryOf_of_last hd

/-- The batch of the block comes last. -/
theorem range_events_kept_iff_own_last :
    let R := onlyBlockRemote (twoBatches abandonedBatch ownBatch)
    ∃ entry, (R.gateway.events "A.1.C.E" 2 2 (.start ⟨(), []⟩)).1 = .ok [entry] ∧ entry.events.length = 1 := by
  intro R
  have hshapes : (decodeMessage (twoBatches abandonedBatch ownBatch) >>= reported).toOption.map (List.map shape) =
      some [(2, [3], 0), (2, [2], 1)] := by decide +kernel
  obtain ⟨message, batches, hanswers, hbatches, hshape⟩ := reported_of_shapes hshapes "A.1.C.E" rfl
  obtain ⟨abandoned, own, rfl, _, hown⟩ := exists_pair_of_map hshape
  have hserves : R.node.Serves (fun _ => True) (fun _ => onlyBlock) 2 2 := onlyBlock_serves _
  obtain ⟨entries, hentries, hlength, hall⟩ := range_events_kept_iff (R := R) (c := .start ⟨(), []⟩) (Int.le_refl 2)
    hserves hanswers trivial hbatches
  obtain ⟨entry, rfl⟩ := List.length_eq_one_iff.mp (Int.ofNat_inj.mp hlength)
  obtain ⟨_, _, _, hlast, _⟩ := hall 0 entry rfl
  obtain ⟨hheight, hblock, hevents⟩ : own.height = 2 ∧ own.block = [2] ∧ own.events.length = 1 := by
    simpa only [shape, Prod.mk.injEq] using hown
  have hentry := hlast own ⟨[abandoned], [], rfl, hheight, List.forall_mem_nil _⟩
  have hsame : own.block = onlyBlock.id := hblock
  rw [if_pos hsame] at hentry
  exact ⟨entry, hentries, hentry ▸ hevents⟩

/-- The batch of the abandoned block comes last, and the event of the other one is lost. -/
theorem own_events_lost :
    let R := onlyBlockRemote (twoBatches ownBatch abandonedBatch)
    R.node.Serves (fun _ => True) (fun _ => onlyBlock) 2 2 ∧ ∃ message batches entry,
      R.node.Answers "GetEventsForHeightRange"
        (mapOf [("type", .text "A.1.C.E"), ("start_height", .int 2), ("end_height", .int 2)]) () message () ∧
      reported message = .ok batches ∧ (R.gateway.events "A.1.C.E" 2 2 (.start ⟨(), []⟩)).1 = .ok [entry] ∧
      entry.events = [] ∧ ¬Kept batches onlyBlock entry := by
  intro R
  have hshapes : (decodeMessage (twoBatches ownBatch abandonedBatch) >>= reported).toOption.map (List.map shape) =
      some [(2, [2], 1), (2, [3], 0)] := by decide +kernel
  obtain ⟨message, batches, hanswers, hbatches, hshape⟩ := reported_of_shapes hshapes "A.1.C.E" rfl
  obtain ⟨own, abandoned, rfl, hown, habandoned⟩ := exists_pair_of_map hshape
  obtain ⟨hheight, hblock, hone⟩ : own.height = 2 ∧ own.block = [2] ∧ own.events.length = 1 := by
    simpa only [shape, Prod.mk.injEq] using hown
  obtain ⟨hheight', hblock', _⟩ : abandoned.height = 2 ∧ abandoned.block = [3] ∧ abandoned.events.length = 0 := by
    simpa only [shape, Prod.mk.injEq] using habandoned
  have hlast : LastAt [own, abandoned] onlyBlock.height abandoned := ⟨[own], [], rfl, hheight', List.forall_mem_nil _⟩
  have hforeign : abandoned.block ≠ onlyBlock.id := by
    rw [hblock']
    decide
  have hentry := entryOf_of_last hlast
  rw [if_neg hforeign] at hentry
  have hserves : R.node.Serves (fun _ => True) (fun _ => onlyBlock) 2 2 := onlyBlock_serves _
  have hevents := events_of_serves (R := R) (c := .start ⟨(), []⟩) hserves (Int.le_refl 2) hanswers trivial hbatches
  refine ⟨hserves, message, [own, abandoned], entryOf [own, abandoned] onlyBlock, hanswers, hbatches, hevents,
    congrArg BlockEvents.events hentry, ?_⟩
  rw [kept_iff, not_not]
  refine ⟨⟨abandoned, hlast, hforeign⟩, ⟨own, List.mem_cons_self, hheight, hblock⟩, ?_⟩
  intro d hd hof
  rcases List.mem_pair.mp hd with rfl | rfl
  · exact List.ne_nil_of_length_pos (hone ▸ Nat.one_pos)
  · exact absurd hof.2 hforeign

end Remote

end Signatory
