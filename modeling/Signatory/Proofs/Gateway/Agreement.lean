import Signatory.Ledger.Basic
import Signatory.Proofs.Lists
import Signatory.Proofs.Wire.Record

/-! Records that do not depend on the backend. What a ledger in the program tells of what it stores, and what is read of
the message in which a node sends the same account, block, event, result or collection, are one record, up to the order
of fields in the payloads of events. -/

namespace Signatory
set_option autoImplicit false
open Outcome
open Cbor (Value)
open Cbor.Value
open Wire

structure Event.Reordered (e f : Event) : Prop where
  fields : f = { e with payload := f.payload }
  payload : Json.Reordered (.object e.payload) (.object f.payload)

structure BlockEvents.Reordered (b c : BlockEvents) : Prop where
  fields : c = { b with events := c.events }
  events : List.Forall₂ Event.Reordered b.events c.events

structure TransactionResult.Reordered (r s : TransactionResult) : Prop where
  fields : s = { r with events := s.events }
  events : List.Forall₂ Event.Reordered r.events s.events

theorem Event.reordered_inOrder (e : Event) : e.Reordered e.inOrder := by
  have hpayload := Json.reordered_canonical (.object e.payload)
  rw [Json.canonical_object] at hpayload
  exact ⟨rfl, hpayload⟩

theorem Event.reordered_map_inOrder (events : List Event) :
    List.Forall₂ Event.Reordered events (events.map Event.inOrder) := by
  rw [List.forall₂_map_right_iff, List.forall₂_same]
  exact fun e _ => e.reordered_inOrder

def StoredKey.toWire (k : StoredKey) : Value :=
  mapOf [("index", .int k.index), ("public_key", .bytes k.publicKey), ("sig_algo", .text k.algorithm.name),
    ("hash_algo", .text k.hash.name), ("weight", .int k.weight), ("sequence_number", .int k.sequenceNumber),
    ("revoked", .bool k.revoked)]

namespace StoredAccount

def toWire (a : StoredAccount) : Value :=
  mapOf [("address", .bytes a.address), ("balance", .int a.balance), ("keys", .list (a.keys.map StoredKey.toWire))]

theorem toWire_toRecord (a : StoredAccount) : a.toRecord.toWire = a.toWire := by
  have hkeys : a.toRecord.keys.map KeyRecord.toWire = a.keys.map StoredKey.toWire := List.map_map
  rw [AccountRecord.toWire, hkeys]
  rfl

end StoredAccount

def StoredBlock.toWire (b : StoredBlock) : Except Error Value := do
  return mapOf [("id", .bytes b.id), ("parent_id", .bytes b.parent), ("height", .int b.height),
    ("timestamp", ← b.timestamp.toWire), ("collection_ids", .list (b.collections.map .bytes))]

def Collection.storedToWire (id : Bytes) (transactions : List Bytes) : Value :=
  mapOf [("id", .bytes id), ("transaction_ids", .list (transactions.map .bytes))]

namespace StoredEvent

def toWire (e : StoredEvent) : Except Error Value :=
  match e.type with
  | .text type => do
    return mapOf [("type", .text type), ("transaction_id", .bytes e.transaction),
      ("transaction_index", .int e.transactionIndex), ("event_index", .int e.eventIndex),
      ("payload", .bytes (← Argument.encode e.payload))]
  | _ => .error .wrongKind

/-- The type is a text, without surrogates, and the payload a typed value. -/
structure Presentable (e : StoredEvent) : Prop where
  type : ∃ s, e.type = .text s ∧ ∀ p ∈ s, p.isSurrogate = false
  typed : ∃ b, Argument.encode e.payload = .ok b
  wellFormed : e.payload.WellFormed

/-- A stored event is told as an event, and its map is read as that event. -/
structure Tells (e : StoredEvent) (event : Event) (v : Value) : Prop where
  told : e.toEvent = .ok event
  written : e.toWire = .ok v
  map : ∃ fields, v = mapOf fields
  fits : Fits 1 v
  read : Event.ofWire v.canonical = .ok event.inOrder

theorem Presentable.tells {e : StoredEvent} (h : e.Presentable) : ∃ event v, e.Tells event v := by
  obtain ⟨⟨type, htype, htext⟩, ⟨payload, hencode⟩, hwellFormed⟩ := h
  obtain ⟨_, transaction, transactionIndex, eventIndex, value⟩ := e
  obtain rfl : _ = Json.text type := htype
  cases value with
  | object fields =>
    let event : Event := ⟨type, transaction, transactionIndex, eventIndex, fields⟩
    have hencode : Argument.encode (.object fields) = .ok payload := hencode
    refine ⟨event, mapOf (event.wireFields payload), rfl, ?_, ⟨_, rfl⟩, Event.fits_wireFields htext payload,
      Event.ofWire_wireFields hwellFormed.portable hencode⟩
    rw [toWire]
    simp only [hencode]
    rfl
  | _ => cases (Argument.encode_eq_ok.mp hencode).1

theorem tells_all {es : List StoredEvent} (h : ∀ e ∈ es, e.Presentable) : ∃ events vs,
    es.mapM toEvent = .ok events ∧ es.mapM toWire = .ok vs ∧ (∀ v ∈ vs, Fits 1 v) ∧
      (vs.map Value.canonical).mapM Event.ofWire = .ok (events.map Event.inOrder) := by
  induction es with
  | nil => exact ⟨[], [], rfl, rfl, nofun, rfl⟩
  | cons e es ih =>
    rw [List.forall_mem_cons] at h
    obtain ⟨event, v, htells⟩ := h.1.tells
    obtain ⟨events, vs, htold, hwritten, hfits, hread⟩ := ih h.2
    rw [mapM_eq_ok] at htold hwritten hread
    refine ⟨event :: events, v :: vs, mapM_eq_ok.mpr (.cons htells.told htold),
      mapM_eq_ok.mpr (.cons htells.written hwritten), List.forall_mem_cons.mpr ⟨htells.fits, hfits⟩,
      mapM_eq_ok.mpr (.cons htells.read hread)⟩

end StoredEvent

/-- The item can be sent, and what is read of a message that a frame has room for is the same record; `Frame.sizeLimit`
is the limit of messages in the format of frames, protocol buffers. -/
def Wire.Carries {α : Type} (item : Except Error Value) (read : Value → Except Error α) (Same : α → Prop) : Prop :=
  ∃ v data, item = .ok v ∧ encodeMessage v = .ok data ∧
    (data.length < Frame.sizeLimit → ∃ a, (decodeMessage data >>= read) = .ok a ∧ Same a)

theorem Wire.carries_mapOf {α : Type} {item : Except Error Value} {fields : List (Text × Value)}
    {read : Value → Except Error α} {a : α} {Same : α → Prop} {n : Nat} (hitem : item = .ok (mapOf fields))
    (hfits : Fits n (mapOf fields)) (hn : n ≤ Cbor.maxDepth) (hread : read (mapOf fields).canonical = .ok a)
    (hsame : Same a) : Carries item read Same := by
  have hdata := encodeMessage_of_portable hfits.portable
  refine ⟨_, _, hitem, hdata, ?_⟩
  intro hsize
  refine ⟨a, ?_, hsame⟩
  rw [decodeMessage_encodeMessage (hfits.mono hn) hdata hsize]
  exact hread

namespace BlockEvents

/-- The batch of a block among batches named by block. -/
def storedToWire (b : StoredBlock) (batches : List (Bytes × List StoredEvent)) : Except Error Value := do
  return mapOf [("block_id", .bytes b.id), ("block_height", .int b.height), ("block_timestamp", ← b.timestamp.toWire),
    ("events", .list (← ((Entries.find? b.id batches).getD []).mapM StoredEvent.toWire))]

def wireFields (b : StoredBlock) (events : List Value) : List (Text × Value) :=
  [("block_id", .bytes b.id), ("block_height", .int b.height), ("block_timestamp", mapOf b.timestamp.wireFields),
    ("events", .list events)]

theorem named_wireFields (b : StoredBlock) (events : List Value) : Named ((wireFields b events).map Prod.fst) :=
  (⟨by decide, by decide⟩ : Named ["block_id", "block_height", "block_timestamp", "events"])

theorem fits_wireFields (b : StoredBlock) {events : List Value} (h : ∀ v ∈ events, Fits 1 v) :
    Fits 3 (mapOf (wireFields b events)) := by
  refine fits_mapOf (named_wireFields b events) ?_
  simp only [wireFields, List.forall_mem_cons]
  exact ⟨fits_bytes _, fits_int _, b.timestamp.fits_wireFields.mono (by decide), fits_list h, nofun⟩

theorem ofWire_wireFields {b : StoredBlock} {vs : List Value} {events : List Event} (hutc : b.timestamp.Utc)
    (h : (vs.map Value.canonical).mapM Event.ofWire = .ok events) :
    ofWire (mapOf (wireFields b vs)).canonical = .ok { b.toBlock.noEvents with events } := by
  have hnames := named_wireFields b vs
  have hblock := required_mapOf hnames "block_id" (.bytes b.id) (by simp [wireFields])
  have hheight := required_mapOf hnames "block_height" (.int b.height) (by simp [wireFields])
  have htimestamp := required_mapOf hnames "block_timestamp" (mapOf b.timestamp.wireFields) (by simp [wireFields])
  have hevents := optional_mapOf hnames "events" (.list vs) (by simp [wireFields]) (.list [])
  rw [canonical_list] at hevents
  unfold ofWire
  rw [hblock, hheight, htimestamp, hevents]
  simp only [bind, Except.bind, canonical, toInt, toItems, Moment.ofWire_wireFields hutc, h]
  rfl

theorem carries_stored {b : StoredBlock} {batches : List (Bytes × List StoredEvent)} (hutc : b.timestamp.Utc)
    (h : ∀ batch ∈ batches, ∀ e ∈ batch.2, e.Presentable) :
    ∃ record, ofStored b batches = .ok record ∧ Carries (storedToWire b batches) ofWire record.Reordered := by
  have hstored : ∀ e ∈ (Entries.find? b.id batches).getD [], e.Presentable := by
    intro e he
    cases hfind : Entries.find? b.id batches with
    | none =>
      rw [hfind] at he
      cases he
    | some es =>
      rw [hfind] at he
      obtain ⟨batch, hbatch, rfl⟩ := Entries.exists_mem_of_find? hfind
      exact h batch hbatch e he
  obtain ⟨events, vs, htold, hwritten, hfits, hread⟩ := StoredEvent.tells_all hstored
  refine ⟨{ b.toBlock.noEvents with events }, ?_, ?_⟩
  · rw [ofStored, htold]
    rfl
  · refine carries_mapOf ?_ (fits_wireFields b hfits) (by decide) (ofWire_wireFields hutc hread) ?_
    · rw [storedToWire, Moment.toWire_eq_ok hutc, hwritten]
      rfl
    · exact ⟨rfl, Event.reordered_map_inOrder events⟩

end BlockEvents

namespace StoredResult

def toWire (r : StoredResult) : Except Error Value := do
  return mapOf [("status", .int TransactionStatus.sealed.code), ("error_message", .text r.errorMessage),
    ("events", .list (← r.events.mapM StoredEvent.toWire)), ("block_id", .bytes r.block)]

/-- The result names its block and has no surrogates in its message, and its events can be told. -/
structure Presentable (r : StoredResult) : Prop where
  block : r.block ≠ []
  errorMessage : ∀ p ∈ r.errorMessage, p.isSurrogate = false
  events : ∀ e ∈ r.events, e.Presentable

def wireFields (r : StoredResult) (events : List Value) : List (Text × Value) :=
  [("status", .int 4), ("error_message", .text r.errorMessage), ("events", .list events), ("block_id", .bytes r.block)]

theorem named_wireFields (r : StoredResult) (events : List Value) : Named ((r.wireFields events).map Prod.fst) :=
  (⟨by decide, by decide⟩ : Named ["status", "error_message", "events", "block_id"])

theorem fits_wireFields {r : StoredResult} (hmessage : ∀ p ∈ r.errorMessage, p.isSurrogate = false)
    {events : List Value} (h : ∀ v ∈ events, Fits 1 v) : Fits 3 (mapOf (r.wireFields events)) := by
  refine fits_mapOf (r.named_wireFields events) ?_
  simp only [wireFields, List.forall_mem_cons]
  exact ⟨fits_int _, fits_text hmessage, fits_list h, fits_bytes _, nofun⟩

theorem ofWire_wireFields {r : StoredResult} (hblock : r.block ≠ []) {vs : List Value} {events : List Event}
    (h : (vs.map Value.canonical).mapM Event.ofWire = .ok events) :
    TransactionResult.ofWire (mapOf (r.wireFields vs)).canonical = .ok ⟨.sealed, r.errorMessage, events, some r.block⟩ := by
  have hnames := r.named_wireFields vs
  have hstatus := optional_mapOf hnames "status" (.int 4) (by simp [wireFields]) (.int 0)
  have hmessage := optional_mapOf hnames "error_message" (.text r.errorMessage) (by simp [wireFields]) (.text [])
  have hevents := optional_mapOf hnames "events" (.list vs) (by simp [wireFields]) (.list [])
  have hblockId := optional_mapOf hnames "block_id" (.bytes r.block) (by simp [wireFields]) .null
  have hname : TransactionResult.blockOfWire (.bytes r.block) = .ok (some r.block) := by
    have htrue : Wire.isTrue (.bytes r.block) = true := by simpa [Wire.isTrue] using hblock
    rw [TransactionResult.blockOfWire, if_pos htrue]
    rfl
  have hsealed : TransactionStatus.ofCode? 4 = some .sealed := rfl
  rw [canonical_list] at hevents
  unfold TransactionResult.ofWire
  rw [hstatus, hmessage, hevents, hblockId]
  simp only [bind, Except.bind, canonical, toInt, toItems, hsealed, h, hname]
  rfl

theorem carries {r : StoredResult} (h : r.Presentable) :
    ∃ record, r.toResult = .ok record ∧ Carries r.toWire TransactionResult.ofWire record.Reordered := by
  obtain ⟨events, vs, htold, hwritten, hfits, hread⟩ := StoredEvent.tells_all h.events
  refine ⟨⟨.sealed, r.errorMessage, events, some r.block⟩, ?_, ?_⟩
  · rw [toResult, htold]
    rfl
  · refine carries_mapOf ?_ (fits_wireFields h.errorMessage hfits) (by decide) (ofWire_wireFields h.block hread) ?_
    · rw [toWire, hwritten]
      rfl
    · exact ⟨rfl, Event.reordered_map_inOrder events⟩

end StoredResult

/-- Accounts, blocks, events, batches, results and collections are the same records, whether a ledger in the program tells
of what it stores or a message brings it. A frame has room for less than two gibibytes, as messages of its format do. -/
theorem records_agree :
    (∀ a : StoredAccount, Carries (.ok a.toWire) AccountRecord.ofWire (· = a.toRecord)) ∧
    (∀ b : StoredBlock, b.timestamp.Utc → Carries b.toWire Block.ofWire (· = b.toBlock)) ∧
    (∀ e : StoredEvent, e.Presentable →
      ∃ event, e.toEvent = .ok event ∧ Carries e.toWire Event.ofWire event.Reordered) ∧
    (∀ (b : StoredBlock) (batches : List (Bytes × List StoredEvent)), b.timestamp.Utc →
      (∀ batch ∈ batches, ∀ e ∈ batch.2, e.Presentable) → ∃ record, BlockEvents.ofStored b batches = .ok record ∧
        Carries (BlockEvents.storedToWire b batches) BlockEvents.ofWire record.Reordered) ∧
    (∀ r : StoredResult, r.Presentable →
      ∃ record, r.toResult = .ok record ∧ Carries r.toWire TransactionResult.ofWire record.Reordered) ∧
    (∀ (id : Bytes) (transactions : List Bytes), Carries (.ok (Collection.storedToWire id transactions)) Collection.ofWire
      (· = Collection.ofStored id transactions)) := by
  refine ⟨?_, ?_, ?_, fun b batches => BlockEvents.carries_stored, fun r => StoredResult.carries, ?_⟩
  · intro a
    rw [← a.toWire_toRecord]
    exact carries_mapOf rfl a.toRecord.fits_toWire (by decide) a.toRecord.ofWire_toWire rfl
  · intro b hutc
    have hwritten : b.toWire = .ok (mapOf b.toBlock.wireFields) := Block.toWire_eq_ok (b := b.toBlock) hutc
    exact carries_mapOf hwritten b.toBlock.fits_wireFields (by decide) (Block.ofWire_wireFields hutc) rfl
  · intro e h
    obtain ⟨event, v, htold, hwritten, ⟨fields, rfl⟩, hfits, hread⟩ := h.tells
    exact ⟨event, htold, carries_mapOf hwritten hfits (by decide) hread event.reordered_inOrder⟩
  · intro id transactions
    let c := Collection.ofStored id transactions
    exact carries_mapOf rfl c.fits_toWire (by decide) c.ofWire_toWire rfl

/-- A payload with its fields out of order, a double, and text beyond ASCII. -/
def tenthPayload : Json :=
  .object [("value", .list [.float (.ofBits 0x3FB999999999999A), .text "é😀"]), ("type", .text "Array")]

def tenthEvent : StoredEvent := ⟨.text "A.1.C.E", [9], 0, 0, tenthPayload⟩

def tenthResult : StoredResult := ⟨[9], [2], "é", [tenthEvent]⟩

/-- The first microsecond of the calendar. -/
def firstMoment : Moment := ⟨-62135596800000000, some 0⟩

def firstMomentBlock : StoredBlock := ⟨[2], [1], 2, firstMoment, [[3]]⟩

theorem presentable_tenthEvent : tenthEvent.Presentable := by
  have hkeys : ∀ f ∈ ([("value", .list [.float (.ofBits 0x3FB999999999999A), .text "é😀"]), ("type", .text "Array")] :
      List (Text × Json)), Json.Unpaired f.1 := by
    simp only [List.forall_mem_cons]
    exact ⟨Json.unpaired_of_isAscii rfl, Json.unpaired_of_isAscii rfl, nofun⟩
  have hitems : Json.WellFormed (.list [.float (.ofBits 0x3FB999999999999A), .text "é😀"]) := by
    refine .list ?_
    simp only [List.forall_mem_cons]
    exact ⟨.float _, .text (Json.unpaired_of_isSurrogate (Text.isSurrogate_of_all (by decide))), nofun⟩
  refine ⟨⟨"A.1.C.E", rfl, Text.isSurrogate_of_all (by decide)⟩, ⟨_, rfl⟩, .object (by decide) hkeys ?_⟩
  simp only [List.forall_mem_cons]
  exact ⟨hitems, .text (Json.unpaired_of_isAscii rfl), nofun⟩

theorem presentable_tenthResult : tenthResult.Presentable :=
  ⟨by decide, Text.isSurrogate_of_all (by decide), List.forall_mem_singleton.mpr presentable_tenthEvent⟩

theorem length_tenthPayload : (Cbor.encode (.bytes (Text.Utf8.encode tenthPayload.render))).length = 53 := by
  have hfields (v w : Json) : [(("value" : Text), v), (("type" : Text), w)].mergeSort Json.fieldLe =
      [(("type" : Text), w), (("value" : Text), v)] := by
    rw [Lists.mergeSort_pair]
    rfl
  rw [tenthPayload, Json.render_object, hfields]
  simp only [List.map_cons, List.map_nil, Json.renderField, Json.render_list]
  decide +kernel

/-- The message of the result has room in a frame. -/
theorem length_tenthResult {v : Value} {data : Bytes} (hv : tenthResult.toWire = .ok v)
    (hdata : encodeMessage v = .ok data) : data.length < Frame.sizeLimit := by
  let event : List (Text × Value) := [("type", .text "A.1.C.E"), ("transaction_id", .bytes [9]),
    ("transaction_index", .int 0), ("event_index", .int 0), ("payload", .bytes (Text.Utf8.encode tenthPayload.render))]
  have hwritten : tenthResult.toWire = .ok (mapOf (tenthResult.wireFields [mapOf event])) := rfl
  obtain rfl := Except.ok.inj (hwritten.symm.trans hv)
  have hlength : (Cbor.encode (mapOf (tenthResult.wireFields [mapOf event]))).length ≤ 200 := by
    have hpayload := length_tenthPayload
    simp only [event]
    generalize Text.Utf8.encode tenthPayload.render = b at hpayload
    simp only [mapOf, StoredResult.wireFields, tenthResult, List.map_cons, List.map_nil, Cbor.length_encode_map,
      Cbor.encode_list, List.flatMap_cons, List.flatMap_nil, List.length_append, List.length_cons, List.length_nil, hpayload]
    decide +kernel
  exact length_encodeMessage_lt hdata (Nat.lt_of_le_of_lt (Nat.add_le_add_right hlength 6) (by decide))

theorem records_agree_tenth :
    firstMoment.Utc ∧ tenthResult.Presentable ∧
    Carries firstMomentBlock.toWire Block.ofWire (· = firstMomentBlock.toBlock) ∧
    (∃ record, BlockEvents.ofStored firstMomentBlock [([7], []), ([2], [tenthEvent])] = .ok record ∧
      Carries (BlockEvents.storedToWire firstMomentBlock [([7], []), ([2], [tenthEvent])]) BlockEvents.ofWire
        record.Reordered) ∧
    ∃ record v data other, tenthResult.toResult = .ok record ∧ tenthResult.toWire = .ok v ∧ encodeMessage v = .ok data ∧
      (decodeMessage data >>= TransactionResult.ofWire) = .ok other ∧ record.Reordered other := by
  have hutc : firstMoment.Utc := ⟨rfl, by decide⟩
  obtain ⟨_, hblock, _, hbatch, hresult, _⟩ := records_agree
  obtain ⟨record, hrecord, v, data, hv, hdata, hread⟩ := hresult tenthResult presentable_tenthResult
  obtain ⟨other, hother, hsame⟩ := hread (length_tenthResult hv hdata)
  have hevents : ∀ batch ∈ [(([7] : Bytes), []), ([2], [tenthEvent])], ∀ e ∈ batch.2, e.Presentable := by
    simp only [List.forall_mem_cons]
    exact ⟨nofun, ⟨presentable_tenthEvent, nofun⟩, nofun⟩
  exact ⟨hutc, presentable_tenthResult, hblock firstMomentBlock hutc, hbatch firstMomentBlock _ hutc hevents,
    record, v, data, other, hrecord, hv, hdata, hother, hsame⟩

end Signatory
