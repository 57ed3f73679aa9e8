import Signatory.Proofs.Argument
import Signatory.Proofs.Json.Double
import Signatory.Proofs.Moment.Timestamp
import Signatory.Proofs.Wire.Message

/-! Records over the wire. Every map that a record is written as fits into a message and is read as that record, events
with the fields of their payloads in order. -/

namespace Signatory
set_option autoImplicit false
open Outcome
open Cbor (Value)
open Cbor.Value
open Wire

namespace Wire

theorem bytesListField_bytes (place : Text) (bs : List Bytes) : bytesListField place (bs.map .bytes) = .ok bs := by
  have hfrom (position : Nat) : bytesListFrom place position (bs.map .bytes) = .ok bs := by
    induction bs generalizing position with
    | nil => rfl
    | cons b bs ih =>
      rw [List.map_cons, bytesListFrom, ih]
      rfl
  exact hfrom 0

theorem canonical_items {α : Type} (items : List α) (f : α → Value) :
    (Value.list (items.map f)).canonical = .list (items.map fun a => (f a).canonical) := by
  rw [canonical_list, List.map_map]
  rfl

theorem mapM_canonical {α : Type} (items : List α) {f : α → Value} {read : Value → Except Error α}
    (h : ∀ a ∈ items, read (f a).canonical = .ok a) :
    (items.map fun a => (f a).canonical).mapM read = .ok items := by
  rw [mapM_eq_ok, List.forall₂_map_left_iff, List.forall₂_same]
  exact h

end Wire

namespace KeyRecord

def wireFields (k : KeyRecord) : List (Text × Value) :=
  [("index", .int k.index), ("public_key", .bytes k.publicKey), ("sig_algo", .text k.algorithm.name),
    ("hash_algo", .text k.hash.name), ("weight", .int k.weight), ("sequence_number", .int k.sequenceNumber),
    ("revoked", .bool k.revoked)]

theorem named_wireFields (k : KeyRecord) : Named (k.wireFields.map Prod.fst) :=
  (⟨by decide, by decide⟩ : Named ["index", "public_key", "sig_algo", "hash_algo", "weight", "sequence_number", "revoked"])

theorem fits_toWire (k : KeyRecord) : Fits 1 k.toWire := by
  have halgorithm : ∀ p ∈ k.algorithm.name, p.isSurrogate = false :=
    Text.isSurrogate_of_isAscii (by cases k.algorithm <;> rfl)
  have hhash : ∀ p ∈ k.hash.name, p.isSurrogate = false := Text.isSurrogate_of_isAscii (by cases k.hash <;> rfl)
  refine fits_mapOf k.named_wireFields ?_
  simp only [List.forall_mem_cons]
  exact ⟨fits_int _, fits_bytes _, fits_text halgorithm, fits_text hhash, fits_int _, fits_int _, fits_bool _, nofun⟩

theorem ofWire_toWire (k : KeyRecord) : ofWire k.toWire.canonical = .ok k := by
  have hnames := k.named_wireFields
  have hindex := required_mapOf hnames "index" (.int k.index) (by simp [wireFields])
  have hpublicKey := required_mapOf hnames "public_key" (.bytes k.publicKey) (by simp [wireFields])
  have halgorithm := required_mapOf hnames "sig_algo" (.text k.algorithm.name) (by simp [wireFields])
  have hhash := required_mapOf hnames "hash_algo" (.text k.hash.name) (by simp [wireFields])
  have hweight := optional_mapOf hnames "weight" (.int k.weight) (by simp [wireFields]) (.int 1000)
  have hsequence := optional_mapOf hnames "sequence_number" (.int k.sequenceNumber) (by simp [wireFields]) (.int 0)
  have hrevoked := optional_mapOf hnames "revoked" (.bool k.revoked) (by simp [wireFields]) (.bool false)
  have hmember : memberField SignatureAlgorithm.ofName? "sig_algo" (.text k.algorithm.name) = .ok k.algorithm := by
    cases k.algorithm <;> rfl
  have hmember' : memberField HashAlgorithm.ofName? "hash_algo" (.text k.hash.name) = .ok k.hash := by
    cases k.hash <;> rfl
  unfold ofWire
  rw [show k.toWire = mapOf k.wireFields from rfl, hindex, hpublicKey, halgorithm, hhash, hweight, hsequence, hrevoked]
  simp only [bind, Except.bind, canonical, toInt, hmember, hmember']
  rfl

end KeyRecord

namespace AccountRecord

def wireFields (a : AccountRecord) : List (Text × Value) :=
  [("address", .bytes a.address), ("balance", .int a.balance), ("keys", .list (a.keys.map KeyRecord.toWire))]

theorem named_wireFields (a : AccountRecord) : Named (a.wireFields.map Prod.fst) :=
  (⟨by decide, by decide⟩ : Named ["address", "balance", "keys"])

theorem fits_toWire (a : AccountRecord) : Fits 3 a.toWire := by
  have hkeys : Fits 2 (.list (a.keys.map KeyRecord.toWire)) :=
    fits_list (List.forall_mem_map.mpr fun k _ => k.fits_toWire)
  refine fits_mapOf a.named_wireFields ?_
  simp only [List.forall_mem_cons]
  exact ⟨fits_bytes _, fits_int _, hkeys, nofun⟩

theorem ofWire_toWire (a : AccountRecord) : ofWire a.toWire.canonical = .ok a := by
  have hnames := a.named_wireFields
  have haddress := required_mapOf hnames "address" (.bytes a.address) (by simp [wireFields])
  have hbalance := optional_mapOf hnames "balance" (.int a.balance) (by simp [wireFields]) (.int 0)
  have hkeys := optional_mapOf hnames "keys" (.list (a.keys.map KeyRecord.toWire)) (by simp [wireFields]) (.list [])
  have hitems := mapM_canonical a.keys fun k _ => k.ofWire_toWire
  rw [canonical_items] at hkeys
  unfold ofWire
  rw [show a.toWire = mapOf a.wireFields from rfl, haddress, hbalance, hkeys]
  simp only [bind, Except.bind, canonical, toInt, toItems, hitems]
  rfl

end AccountRecord

namespace Moment

/-- The reading of a UTC clock, which keeps to the calendar. -/
structure Utc (t : Moment) : Prop where
  offset : t.offset = some 0
  inCalendar : Moment.inCalendar t.micros = true

def wireFields (t : Moment) : List (Text × Value) :=
  [("seconds", .int (t.micros / second)), ("nanos", .int (t.micros % second * 1000))]

theorem named_wireFields (t : Moment) : Named (t.wireFields.map Prod.fst) :=
  (⟨by decide, by decide⟩ : Named ["seconds", "nanos"])

theorem Utc.utcMicros_eq {t : Moment} (h : t.Utc) : t.utcMicros = t.micros := by
  rw [utcMicros, h.offset, Option.getD_some, Int.sub_zero]

theorem Utc.toTimestamp_eq_ok {t : Moment} (h : t.Utc) :
    t.toTimestamp = .ok ⟨t.micros / second, t.micros % second * 1000⟩ := by
  apply toTimestamp_eq_ok_iff.mpr
  rw [h.utcMicros_eq]
  exact ⟨h.inCalendar, h.inCalendar, rfl⟩

theorem toWire_eq_ok {t : Moment} (h : t.Utc) : t.toWire = .ok (mapOf t.wireFields) :=
  toWire_eq_ok_iff.mpr h.toTimestamp_eq_ok

theorem fits_wireFields (t : Moment) : Fits 1 (mapOf t.wireFields) := by
  refine fits_mapOf t.named_wireFields ?_
  simp only [wireFields, List.forall_mem_cons]
  exact ⟨fits_int _, fits_int _, nofun⟩

theorem ofWire_wireFields {t : Moment} (h : t.Utc) : ofWire (mapOf t.wireFields).canonical = .ok t := by
  have hnames := t.named_wireFields
  have hseconds := optional_mapOf hnames "seconds" (.int (t.micros / second)) (by simp [wireFields]) (.int 0)
  have hnanos := optional_mapOf hnames "nanos" (.int (t.micros % second * 1000)) (by simp [wireFields]) (.int 0)
  have hread : Timestamp.ofWire (mapOf t.wireFields).canonical = .ok ⟨t.micros / second, t.micros % second * 1000⟩ := by
    unfold Timestamp.ofWire
    simp only [hseconds, hnanos, bind, Except.bind, canonical, toInt]
    rfl
  rw [ofWire_eq hread, toMoment_of_toTimestamp h.toTimestamp_eq_ok, h.utcMicros_eq, ← h.offset]

end Moment

namespace Block

def wireFields (b : Block) : List (Text × Value) :=
  [("id", .bytes b.id), ("parent_id", .bytes b.parent), ("height", .int b.height),
    ("timestamp", mapOf b.timestamp.wireFields), ("collection_ids", .list (b.collections.map .bytes))]

theorem named_wireFields (b : Block) : Named (b.wireFields.map Prod.fst) :=
  (⟨by decide, by decide⟩ : Named ["id", "parent_id", "height", "timestamp", "collection_ids"])

theorem toWire_eq_ok {b : Block} (h : b.timestamp.Utc) : b.toWire = .ok (mapOf b.wireFields) := by
  rw [toWire, Moment.toWire_eq_ok h]
  rfl

theorem fits_wireFields (b : Block) : Fits 2 (mapOf b.wireFields) := by
  refine fits_mapOf b.named_wireFields ?_
  simp only [wireFields, List.forall_mem_cons]
  exact ⟨fits_bytes _, fits_bytes _, fits_int _, b.timestamp.fits_wireFields, fits_bytesList _ 0, nofun⟩

theorem ofWire_wireFields {b : Block} (h : b.timestamp.Utc) : ofWire (mapOf b.wireFields).canonical = .ok b := by
  have hnames := b.named_wireFields
  have hid := required_mapOf hnames "id" (.bytes b.id) (by simp [wireFields])
  have hparent := required_mapOf hnames "parent_id" (.bytes b.parent) (by simp [wireFields])
  have hheight := required_mapOf hnames "height" (.int b.height) (by simp [wireFields])
  have htimestamp := required_mapOf hnames "timestamp" (mapOf b.timestamp.wireFields) (by simp [wireFields])
  have hcollections := optional_mapOf hnames "collection_ids" (.list (b.collections.map .bytes)) (by simp [wireFields])
    (.list [])
  rw [canonical_bytesList] at hcollections
  unfold ofWire
  rw [hid, hparent, hheight, htimestamp, hcollections]
  simp only [bind, Except.bind, canonical, toInt, toItems, Moment.ofWire_wireFields h, bytesListField_bytes]
  rfl

end Block

namespace Collection

def wireFields (c : Collection) : List (Text × Value) :=
  [("id", .bytes c.id), ("transaction_ids", .list (c.transactions.map .bytes))]

theorem named_wireFields (c : Collection) : Named (c.wireFields.map Prod.fst) :=
  (⟨by decide, by decide⟩ : Named ["id", "transaction_ids"])

theorem fits_toWire (c : Collection) : Fits 2 c.toWire := by
  refine fits_mapOf c.named_wireFields ?_
  simp only [List.forall_mem_cons]
  exact ⟨fits_bytes _, fits_bytesList _ 0, nofun⟩

theorem ofWire_toWire (c : Collection) : ofWire c.toWire.canonical = .ok c := by
  have hnames := c.named_wireFields
  have hid := required_mapOf hnames "id" (.bytes c.id) (by simp [wireFields])
  have htransactions := optional_mapOf hnames "transaction_ids" (.list (c.transactions.map .bytes)) (by simp [wireFields])
    (.list [])
  rw [canonical_bytesList] at htransactions
  unfold ofWire
  rw [show c.toWire = mapOf c.wireFields from rfl, hid, htransactions]
  simp only [bind, Except.bind, canonical, toItems, bytesListField_bytes]
  rfl

end Collection

namespace Event

/-- The event with its payload in canonical form. -/
def inOrder (e : Event) : Event := { e with payload := Json.inOrder e.payload }

def wireFields (e : Event) (payload : Bytes) : List (Text × Value) :=
  [("type", .text e.type), ("transaction_id", .bytes e.transaction), ("transaction_index", .int e.transactionIndex),
    ("event_index", .int e.eventIndex), ("payload", .bytes payload)]

theorem named_wireFields (e : Event) (payload : Bytes) : Named ((e.wireFields payload).map Prod.fst) :=
  (⟨by decide, by decide⟩ : Named ["type", "transaction_id", "transaction_index", "event_index", "payload"])

theorem fits_wireFields {e : Event} (h : ∀ p ∈ e.type, p.isSurrogate = false) (payload : Bytes) :
    Fits 1 (mapOf (e.wireFields payload)) := by
  refine fits_mapOf (e.named_wireFields payload) ?_
  simp only [wireFields, List.forall_mem_cons]
  exact ⟨fits_text h, fits_bytes _, fits_int _, fits_int _, fits_bytes _, nofun⟩

theorem ofWire_wireFields {e : Event} (hportable : Json.Portable (.object e.payload)) {payload : Bytes}
    (h : Argument.encode (.object e.payload) = .ok payload) :
    ofWire (mapOf (e.wireFields payload)).canonical = .ok e.inOrder := by
  have hnames := e.named_wireFields payload
  have htype := required_mapOf hnames "type" (.text e.type) (by simp [wireFields])
  have htransaction := required_mapOf hnames "transaction_id" (.bytes e.transaction) (by simp [wireFields])
  have htransactionIndex := required_mapOf hnames "transaction_index" (.int e.transactionIndex) (by simp [wireFields])
  have heventIndex := required_mapOf hnames "event_index" (.int e.eventIndex) (by simp [wireFields])
  have hpayload := required_mapOf hnames "payload" (.bytes payload) (by simp [wireFields])
  have hdecode := Argument.decode_of_encode hportable h
  rw [Json.canonical_object] at hdecode
  unfold ofWire
  rw [htype, htransaction, htransactionIndex, heventIndex, hpayload]
  simp only [bind, Except.bind, canonical, toInt, payloadOfWire, hdecode]
  rfl

end Event

end Signatory
