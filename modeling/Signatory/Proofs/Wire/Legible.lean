import Signatory.Proofs.Argument
import Signatory.Wire.Transaction

/-! What can be read from a received item. Each record has a form that says which fields a map must have, which it may
have, and what their items must be; the readers come out on exactly the items of that form. -/

namespace Signatory
set_option autoImplicit false
open Outcome
open Cbor (Value)

namespace Checked

variable {α β : Type} {a : Checked α} {b : Checked β}

theorem exists_and_iff : (∃ r, a.and b = .ok r) ↔ (∃ x, a = .ok x) ∧ ∃ y, b = .ok y := by
  cases a <;> cases b <;> simp [Checked.and]

theorem exists_map_iff {f : α → β} : (∃ y, a.map f = .ok y) ↔ ∃ x, a = .ok x := by
  cases a <;> simp [Except.map]

theorem settle_eq_ok {x : α} : a.settle = .ok x ↔ a = .ok x := by
  cases a <;> simp [settle]

theorem exists_settle_iff : (∃ x, a.settle = .ok x) ↔ ∃ x, a = .ok x := exists_congr fun _ => settle_eq_ok

end Checked

namespace Wire

variable {name place : Text} {v : Value} {P : Value → Prop}

/-- A field that is there. -/
def Has (v : Value) (name : Text) (P : Value → Prop) : Prop := ∃ item, v.field? name = some item ∧ P item

/-- A field of a map that may be absent. -/
def MayHave (v : Value) (name : Text) (P : Value → Prop) : Prop :=
  (∃ entries, v = .map entries) ∧ ∀ item, v.field? name = some item → P item

theorem exists_required_iff : (∃ item, required name v = .ok item ∧ P item) ↔ Has v name P := by
  unfold required Has
  cases v with
  | map entries =>
    cases (Value.map entries).field? name with
    | none => simp
    | some item => simp
  | _ => simp [Value.field?]

theorem exists_field_iff {α : Type} {read : Value → Except Error α} (h : ∀ item, (∃ a, read item = .ok a) ↔ P item) :
    (∃ a, required name v >>= read = .ok a) ↔ Has v name P := by
  simp only [exists_bind_iff, h, exists_required_iff]

/-- A default stands for what may be absent. -/
theorem exists_optional_iff (name : Text) (v default : Value) (h : P default) :
    (∃ item, optional name default v = .ok item ∧ P item) ↔ MayHave v name P := by
  unfold optional MayHave
  cases v with
  | map entries =>
    cases (Value.map entries).field? name with
    | none => simp [h]
    | some item => simp
  | _ => simp

/-- Any item will do, so that only the map itself is looked at. -/
theorem exists_optional_of_required {item : Value} (h : required name v = .ok item) (name' : Text) (default : Value) :
    ∃ item', optional name' default v = .ok item' := by
  cases v with
  | map entries => exact ⟨_, rfl⟩
  | _ => cases h

/-- The item stands for an integer. -/
def Integral (v : Value) : Prop := ∃ i, toInt v = .ok i

theorem exists_toInt_iff : (∃ i, toInt v = .ok i) ↔ Integral v := Iff.rfl

theorem integral_int (i : Int) : Integral (.int i) := ⟨i, rfl⟩

/-- The item stands for an integer of a range. -/
def Within (least most : Int) (v : Value) : Prop := ∃ i, toInt v = .ok i ∧ least ≤ i ∧ i ≤ most

/-- The item is made of such items. -/
def ItemsOf (P : Value → Prop) (v : Value) : Prop := ∃ items, toItems v = .ok items ∧ ∀ item ∈ items, P item

theorem itemsOf_nil (P : Value → Prop) : ItemsOf P (.list []) := ⟨[], rfl, List.forall_mem_nil P⟩

inductive IsBytes : Value → Prop where
  | bytes (b : Bytes) : IsBytes (.bytes b)
  | text {s : Text} {b : Bytes} (h : Text.Utf8.encode? s = some b) : IsBytes (.text s)

inductive Spells : Value → Text → Prop where
  | text (s : Text) : Spells (.text s) s
  | bytes {b : Bytes} {s : Text} (h : Text.Utf8.decode? b = some s) : Spells (.bytes b) s

def IsText (v : Value) : Prop := ∃ s, Spells v s

/-- The item names a member of a family. -/
def Names {α : Type} (ofName? : Text → Option α) (v : Value) : Prop :=
  ∃ s a, Spells v s ∧ (∀ p ∈ s, p.isSurrogate = false) ∧ ofName? s = some a

theorem exists_bytesField_iff : (∃ b, bytesField place v = .ok b) ↔ IsBytes v := by
  constructor
  · rintro ⟨b, hb⟩
    cases v with
    | bytes => exact .bytes _
    | text s =>
      rw [bytesField] at hb
      cases hencode : Text.Utf8.encode? s with
      | none =>
        rw [hencode] at hb
        cases hb
      | some => exact .text hencode
    | _ => cases hb
  · rintro (b | @⟨s, b, h⟩)
    · exact ⟨b, rfl⟩
    · exact ⟨b, by rw [bytesField, h]; rfl⟩

theorem textField_eq_ok (place : Text) {s : Text} : textField place v = .ok s ↔ Spells v s := by
  constructor
  · intro hs
    cases v with
    | text s' =>
      obtain rfl := Except.ok.inj hs
      exact .text s'
    | bytes b =>
      rw [textField] at hs
      cases hdecode : Text.Utf8.decode? b with
      | none =>
        rw [hdecode] at hs
        cases hs
      | some s' =>
        rw [hdecode] at hs
        obtain rfl := Except.ok.inj hs
        exact .bytes hdecode
    | _ => cases hs
  · rintro (s | @⟨b, s, h⟩)
    · rfl
    · rw [textField, h]

theorem exists_textField_iff : (∃ s, textField place v = .ok s) ↔ IsText v :=
  exists_congr fun _ => textField_eq_ok place

theorem exists_memberField_iff {α : Type} {ofName? : Text → Option α} :
    (∃ a, memberField ofName? place v = .ok a) ↔ Names ofName? v := by
  unfold memberField Names
  simp only [← textField_eq_ok place]
  cases textField place v with
  | error => simp [Checked.fault]
  | ok s =>
    have hunicode : s.any CodePoint.isSurrogate = false ↔ ∀ p ∈ s, p.isSurrogate = false := by simp
    simp only [Except.ok.injEq, exists_and_left, exists_eq_left', ← hunicode]
    cases s.any CodePoint.isSurrogate with
    | true => simp [Checked.fault]
    | false => cases ofName? s <;> simp [Checked.fault]

theorem exists_bytesListField_iff {items : List Value} :
    (∃ bs, bytesListField place items = .ok bs) ↔ ∀ item ∈ items, IsBytes item := by
  have hfrom (position : Nat) : (∃ bs, bytesListFrom place position items = .ok bs) ↔ ∀ item ∈ items, IsBytes item := by
    induction items generalizing position with
    | nil => simp [bytesListFrom]
    | cons v items ih =>
      rw [bytesListFrom, Checked.exists_map_iff, Checked.exists_and_iff, exists_bytesField_iff, ih, List.forall_mem_cons]
  exact hfrom 0

end Wire

open Wire

@[mk_iff]
structure Moment.Legible (v : Value) : Prop where
  seconds : MayHave v "seconds" (Within firstSecond lastSecond)
  nanos : MayHave v "nanos" (Within 0 999999999)

theorem Timestamp.exists_toMoment_iff {w : Timestamp} : (∃ t, w.toMoment = .ok t) ↔
    (Moment.firstSecond ≤ w.seconds ∧ w.seconds ≤ Moment.lastSecond) ∧ 0 ≤ w.nanos ∧ w.nanos ≤ 999999999 := by
  unfold toMoment
  split
  · exact iff_of_true ⟨_, rfl⟩ (by omega)
  · exact iff_of_false not_exists_ok (by omega)

theorem Moment.exists_ofWire_iff (v : Value) : (∃ t, ofWire v = .ok t) ↔ Legible v := by
  have hseconds := exists_optional_iff (P := Within firstSecond lastSecond) "seconds" v (.int 0)
    ⟨0, rfl, by decide, by decide⟩
  have hnanos := exists_optional_iff (P := Within 0 999999999) "nanos" v (.int 0) ⟨0, rfl, by decide, by decide⟩
  rw [legible_iff, ← hseconds, ← hnanos]
  simp only [ofWire, Timestamp.ofWire, bind_assoc, pure_bind, exists_bind_iff, Timestamp.exists_toMoment_iff, Within]
  constructor
  · rintro ⟨s, hs, seconds, hseconds, n, hn, nanos, hnanos, hsecondsRange, hnanosRange⟩
    exact ⟨⟨s, hs, seconds, hseconds, hsecondsRange⟩, n, hn, nanos, hnanos, hnanosRange⟩
  · rintro ⟨⟨s, hs, seconds, hseconds, hsecondsRange⟩, n, hn, nanos, hnanos, hnanosRange⟩
    exact ⟨s, hs, seconds, hseconds, n, hn, nanos, hnanos, hsecondsRange, hnanosRange⟩

@[mk_iff]
structure KeyRecord.Legible (v : Value) : Prop where
  index : Has v "index" Integral
  publicKey : Has v "public_key" IsBytes
  algorithm : Has v "sig_algo" (Names SignatureAlgorithm.ofName?)
  hash : Has v "hash_algo" (Names HashAlgorithm.ofName?)
  weight : MayHave v "weight" Integral
  sequenceNumber : MayHave v "sequence_number" Integral

theorem KeyRecord.exists_ofWire_iff (v : Value) : (∃ k, ofWire v = .ok k) ↔ Legible v := by
  have hweight := exists_optional_iff "weight" v _ (integral_int 1000)
  have hsequence := exists_optional_iff "sequence_number" v _ (integral_int 0)
  have hrevoked {item : Value} (h : required "index" v = .ok item) :=
    exists_optional_of_required h "revoked" (.bool false)
  rw [legible_iff, ← hweight, ← hsequence]
  simp only [← exists_required_iff, ofWire, exists_bind_iff, exists_and_right, exists_pure, and_true,
    exists_toInt_iff, Checked.exists_settle_iff, Checked.exists_and_iff, exists_bytesField_iff, exists_memberField_iff]
  constructor
  · rintro ⟨i, hi, hindex, p, hp, a, ha, h, hh, w, hw, hweight, n, hn, hsequence, _, hpublicKey, halgorithm, hhash⟩
    exact ⟨⟨i, hi, hindex⟩, ⟨p, hp, hpublicKey⟩, ⟨a, ha, halgorithm⟩, ⟨h, hh, hhash⟩, ⟨w, hw, hweight⟩, n, hn,
      hsequence⟩
  · rintro ⟨⟨i, hi, hindex⟩, ⟨p, hp, hpublicKey⟩, ⟨a, ha, halgorithm⟩, ⟨h, hh, hhash⟩, ⟨w, hw, hweight⟩, n, hn,
      hsequence⟩
    exact ⟨i, hi, hindex, p, hp, a, ha, h, hh, w, hw, hweight, n, hn, hsequence, hrevoked hi, hpublicKey, halgorithm,
      hhash⟩

@[mk_iff]
structure AccountRecord.Legible (v : Value) : Prop where
  address : Has v "address" IsBytes
  balance : MayHave v "balance" Integral
  keys : MayHave v "keys" (ItemsOf KeyRecord.Legible)

theorem AccountRecord.exists_ofWire_iff (v : Value) : (∃ a, ofWire v = .ok a) ↔ Legible v := by
  have hbalance := exists_optional_iff "balance" v _ (integral_int 0)
  have hkeys := exists_optional_iff "keys" v _ (itemsOf_nil KeyRecord.Legible)
  rw [legible_iff, ← hbalance, ← hkeys]
  simp only [← exists_required_iff, ofWire, exists_bind_iff, exists_and_right, exists_pure, and_true, exists_toInt_iff,
    exists_mapM_iff, KeyRecord.exists_ofWire_iff, Checked.exists_settle_iff, exists_bytesField_iff]
  constructor
  · rintro ⟨a, ha, b, hb, hbalance, k, hk, items, hitems, hkeys, haddress⟩
    exact ⟨⟨a, ha, haddress⟩, ⟨b, hb, hbalance⟩, k, hk, items, hitems, hkeys⟩
  · rintro ⟨⟨a, ha, haddress⟩, ⟨b, hb, hbalance⟩, k, hk, items, hitems, hkeys⟩
    exact ⟨a, ha, b, hb, hbalance, k, hk, items, hitems, hkeys, haddress⟩

@[mk_iff]
structure Block.Legible (v : Value) : Prop where
  id : Has v "id" IsBytes
  parent : Has v "parent_id" IsBytes
  height : Has v "height" Integral
  timestamp : Has v "timestamp" Moment.Legible
  collections : MayHave v "collection_ids" (ItemsOf IsBytes)

theorem Block.exists_ofWire_iff (v : Value) : (∃ b, ofWire v = .ok b) ↔ Legible v := by
  have hcollections := exists_optional_iff "collection_ids" v _ (itemsOf_nil IsBytes)
  rw [legible_iff, ← hcollections]
  simp only [← exists_required_iff, ofWire, exists_bind_iff, exists_and_right, exists_pure, and_true, exists_toInt_iff,
    Moment.exists_ofWire_iff, Checked.exists_settle_iff, Checked.exists_and_iff, exists_bytesField_iff,
    exists_bytesListField_iff]
  constructor
  · rintro ⟨i, hi, p, hp, h, hh, hheight, t, ht, htimestamp, c, hc, items, hitems, hid, hparent, hcollections⟩
    exact ⟨⟨i, hi, hid⟩, ⟨p, hp, hparent⟩, ⟨h, hh, hheight⟩, ⟨t, ht, htimestamp⟩, c, hc, items, hitems, hcollections⟩
  · rintro ⟨⟨i, hi, hid⟩, ⟨p, hp, hparent⟩, ⟨h, hh, hheight⟩, ⟨t, ht, htimestamp⟩, c, hc, items, hitems, hcollections⟩
    exact ⟨i, hi, p, hp, h, hh, hheight, t, ht, htimestamp, c, hc, items, hitems, hid, hparent, hcollections⟩

@[mk_iff]
structure Collection.Legible (v : Value) : Prop where
  id : Has v "id" IsBytes
  transactions : MayHave v "transaction_ids" (ItemsOf IsBytes)

theorem Collection.exists_ofWire_iff (v : Value) : (∃ c, ofWire v = .ok c) ↔ Legible v := by
  have htransactions := exists_optional_iff "transaction_ids" v _ (itemsOf_nil IsBytes)
  rw [legible_iff, ← htransactions]
  simp only [← exists_required_iff, ofWire, exists_bind_iff, exists_pure, and_true, Checked.exists_settle_iff,
    Checked.exists_and_iff, exists_bytesField_iff, exists_bytesListField_iff]
  constructor
  · rintro ⟨i, hi, t, ht, items, hitems, hid, htransactions⟩
    exact ⟨⟨i, hi, hid⟩, t, ht, items, hitems, htransactions⟩
  · rintro ⟨⟨i, hi, hid⟩, t, ht, items, hitems, htransactions⟩
    exact ⟨i, hi, t, ht, items, hitems, hid, htransactions⟩

/-- The bytes of a typed value. -/
def Argument.Legible (v : Value) : Prop :=
  ∃ b j, v = .bytes b ∧ (Text.Utf8.decode? b).bind Json.parse? = some j ∧ Typed j

theorem Argument.decode_eq_ok {b : Bytes} {j : Json} :
    decode b = .ok j ↔ (Text.Utf8.decode? b).bind Json.parse? = some j ∧ Typed j := by
  unfold decode Typed
  cases (Text.Utf8.decode? b).bind Json.parse? with
  | none => simp
  | some j' =>
    simp only [bind_eq_ok, pure_eq_ok, Option.some.injEq]
    constructor
    · rintro ⟨_, hcheck, rfl⟩
      exact ⟨rfl, hcheck⟩
    · rintro ⟨rfl, hcheck⟩
      exact ⟨(), hcheck, rfl⟩

theorem LooseTransaction.exists_argumentOfWire_iff (v : Value) :
    (∃ j, argumentOfWire v = .ok j) ↔ Argument.Legible v := by
  unfold Argument.Legible
  cases v with
  | bytes b => simp [argumentOfWire, Argument.decode_eq_ok]
  | _ => simp [argumentOfWire]

theorem Argument.Typed.exists_object {j : Json} (h : Typed j) : ∃ fields, j = .object fields := by
  cases j with
  | object fields => exact ⟨fields, rfl⟩
  | _ => cases h

/-- A typed value is an object, as a payload has to be. -/
theorem Event.exists_payloadOfWire_iff (v : Value) : (∃ p, payloadOfWire v = .ok p) ↔ Argument.Legible v := by
  unfold Argument.Legible
  cases v with
  | bytes b =>
    simp only [payloadOfWire, exists_bind_iff, Argument.decode_eq_ok, Value.bytes.injEq, exists_and_left,
      exists_eq_left']
    refine exists_congr fun j => and_iff_left_of_imp fun ⟨_, htyped⟩ => ?_
    obtain ⟨fields, rfl⟩ := htyped.exists_object
    exact ⟨fields, rfl⟩
  | _ => simp [payloadOfWire]

@[mk_iff]
structure Event.Legible (v : Value) : Prop where
  type : Has v "type" IsText
  transaction : Has v "transaction_id" IsBytes
  transactionIndex : Has v "transaction_index" Integral
  eventIndex : Has v "event_index" Integral
  payload : Has v "payload" Argument.Legible

theorem Event.exists_ofWire_iff (v : Value) : (∃ e, ofWire v = .ok e) ↔ Legible v := by
  rw [legible_iff]
  simp only [← exists_required_iff, ofWire, exists_bind_iff, exists_and_right, exists_pure, and_true, exists_toInt_iff,
    exists_payloadOfWire_iff, Checked.exists_settle_iff, Checked.exists_and_iff, exists_textField_iff,
    exists_bytesField_iff]
  constructor
  · rintro ⟨y, hy, t, ht, i, hi, hindex, e, he, hindex', p, hp, hpayload, htype, htransaction⟩
    exact ⟨⟨y, hy, htype⟩, ⟨t, ht, htransaction⟩, ⟨i, hi, hindex⟩, ⟨e, he, hindex'⟩, p, hp, hpayload⟩
  · rintro ⟨⟨y, hy, htype⟩, ⟨t, ht, htransaction⟩, ⟨i, hi, hindex⟩, ⟨e, he, hindex'⟩, p, hp, hpayload⟩
    exact ⟨y, hy, t, ht, i, hi, hindex, e, he, hindex', p, hp, hpayload, htype, htransaction⟩

@[mk_iff]
structure BlockEvents.Legible (v : Value) : Prop where
  block : Has v "block_id" IsBytes
  height : Has v "block_height" Integral
  timestamp : Has v "block_timestamp" Moment.Legible
  events : MayHave v "events" (ItemsOf Event.Legible)

theorem BlockEvents.exists_ofWire_iff (v : Value) : (∃ b, ofWire v = .ok b) ↔ Legible v := by
  have hevents := exists_optional_iff "events" v _ (itemsOf_nil Event.Legible)
  rw [legible_iff, ← hevents]
  simp only [← exists_required_iff, ofWire, exists_bind_iff, exists_and_right, exists_pure, and_true, exists_toInt_iff,
    Moment.exists_ofWire_iff, exists_mapM_iff, Event.exists_ofWire_iff, Checked.exists_settle_iff, exists_bytesField_iff]
  constructor
  · rintro ⟨b, hb, h, hh, hheight, t, ht, htimestamp, e, he, items, hitems, hevents, hblock⟩
    exact ⟨⟨b, hb, hblock⟩, ⟨h, hh, hheight⟩, ⟨t, ht, htimestamp⟩, e, he, items, hitems, hevents⟩
  · rintro ⟨⟨b, hb, hblock⟩, ⟨h, hh, hheight⟩, ⟨t, ht, htimestamp⟩, e, he, items, hitems, hevents⟩
    exact ⟨b, hb, h, hh, hheight, t, ht, htimestamp, e, he, items, hitems, hevents, hblock⟩

/-- The item stands for the number of a status. -/
def TransactionStatus.Legible (v : Value) : Prop := ∃ s : TransactionStatus, toInt v = .ok s.code

theorem TransactionStatus.ofCode?_eq_some {code : Int} {s : TransactionStatus} :
    ofCode? code = some s ↔ s.code = code := by
  constructor
  · intro h
    simpa using List.find?_some h
  · rintro rfl
    cases s <;> rfl

@[mk_iff]
structure TransactionResult.Legible (v : Value) : Prop where
  status : MayHave v "status" TransactionStatus.Legible
  errorMessage : MayHave v "error_message" IsText
  events : MayHave v "events" (ItemsOf Event.Legible)
  block : MayHave v "block_id" fun item => isTrue item = true → IsBytes item

theorem TransactionResult.exists_blockOfWire_iff (v : Value) :
    (∃ b, blockOfWire v = .ok b) ↔ (isTrue v = true → IsBytes v) := by
  unfold blockOfWire
  split
  · rename_i htrue
    rw [Checked.exists_map_iff, exists_bytesField_iff, forall_prop_of_true htrue]
  · rename_i hfalse
    exact iff_of_true ⟨none, rfl⟩ fun htrue => absurd htrue hfalse

theorem TransactionResult.exists_ofWire_iff (v : Value) : (∃ r, ofWire v = .ok r) ↔ Legible v := by
  have hstatus := exists_optional_iff (P := TransactionStatus.Legible) "status" v (.int 0) ⟨.unknown, rfl⟩
  have herror := exists_optional_iff (P := IsText) "error_message" v (.text []) ⟨[], .text []⟩
  have hevents := exists_optional_iff "events" v _ (itemsOf_nil Event.Legible)
  have hblock := exists_optional_iff (P := fun item => isTrue item = true → IsBytes item) "block_id" v .null
    (by simp [Wire.isTrue])
  rw [legible_iff, ← hstatus, ← herror, ← hevents, ← hblock]
  simp only [ofWire, exists_bind_iff]
  constructor
  · rintro ⟨s, hs, code, hcode, hread⟩
    cases hfound : TransactionStatus.ofCode? code with
    | none => simp [hfound] at hread
    | some status =>
      obtain rfl := TransactionStatus.ofCode?_eq_some.mp hfound
      simp only [hfound, exists_bind_iff, exists_and_right, exists_pure, and_true, exists_mapM_iff,
        Event.exists_ofWire_iff, Checked.exists_settle_iff, Checked.exists_and_iff, exists_textField_iff,
        exists_blockOfWire_iff] at hread
      obtain ⟨m, hm, e, he, items, hitems, hevents, b, hb, hmessage, hblock⟩ := hread
      exact ⟨⟨s, hs, status, hcode⟩, ⟨m, hm, hmessage⟩, ⟨e, he, items, hitems, hevents⟩, b, hb, hblock⟩
  · rintro ⟨⟨s, hs, status, hcode⟩, ⟨m, hm, hmessage⟩, ⟨e, he, items, hitems, hevents⟩, b, hb, hblock⟩
    refine ⟨s, hs, status.code, hcode, ?_⟩
    simp only [TransactionStatus.ofCode?_eq_some.mpr rfl, exists_bind_iff, exists_and_right, exists_pure, and_true,
      exists_mapM_iff, Event.exists_ofWire_iff, Checked.exists_settle_iff, Checked.exists_and_iff, exists_textField_iff,
      exists_blockOfWire_iff]
    exact ⟨m, hm, e, he, items, hitems, hevents, b, hb, hmessage, hblock⟩

namespace LooseTransaction

structure LegibleKey (v : Value) : Prop where
  address : Has v "address" fun _ => True
  keyIndex : Has v "key_index" Integral

@[mk_iff]
structure LegibleSignature (v : Value) : Prop where
  address : Has v "address" fun item => item.isKey = true
  keyIndex : Has v "key_index" Integral
  signature : Has v "signature" fun _ => True

@[mk_iff]
structure Legible (v : Value) : Prop where
  script : Has v "script" fun _ => True
  arguments : MayHave v "arguments" (ItemsOf Argument.Legible)
  payer : Has v "payer" fun _ => True
  authorizers : MayHave v "authorizers" (ItemsOf fun _ => True)
  proposalKey : Has v "proposal_key" LegibleKey
  payloadSignatures : MayHave v "payload_signatures" (ItemsOf LegibleSignature)
  envelopeSignatures : MayHave v "envelope_signatures" (ItemsOf LegibleSignature)

theorem exists_checkKey_iff {v : Value} : (∃ u, checkKey v = .ok u) ↔ v.isKey = true := by
  unfold checkKey
  cases v.isKey <;> simp

theorem exists_signatureOfWire_iff (v : Value) : (∃ s, signatureOfWire v = .ok s) ↔ LegibleSignature v := by
  rw [legibleSignature_iff]
  simp only [← exists_required_iff, signatureOfWire, exists_bind_iff, exists_and_right, exists_pure, and_true,
    exists_toInt_iff, exists_checkKey_iff]
  constructor
  · rintro ⟨a, ha, i, hi, hindex, hsignature, haddress⟩
    exact ⟨⟨a, ha, haddress⟩, ⟨i, hi, hindex⟩, hsignature⟩
  · rintro ⟨⟨a, ha, haddress⟩, ⟨i, hi, hindex⟩, hsignature⟩
    exact ⟨a, ha, i, hi, hindex, hsignature, haddress⟩

theorem exists_signaturesOfWire_iff (v : Value) : (∃ s, signaturesOfWire v = .ok s) ↔ ItemsOf LegibleSignature v := by
  simp only [signaturesOfWire, exists_bind_iff, exists_pure, and_true, exists_mapM_iff, exists_signatureOfWire_iff,
    ItemsOf]

theorem exists_ofWire_iff (v : Value) : (∃ t, ofWire v = .ok t) ↔ Legible v := by
  have harguments := exists_optional_iff "arguments" v _ (itemsOf_nil Argument.Legible)
  have hauthorizers := exists_optional_iff "authorizers" v _ (itemsOf_nil fun _ => True)
  have hpayload := exists_optional_iff "payload_signatures" v _ (itemsOf_nil LegibleSignature)
  have henvelope := exists_optional_iff "envelope_signatures" v _ (itemsOf_nil LegibleSignature)
  rw [legible_iff, ← harguments, ← hauthorizers, ← hpayload, ← henvelope]
  simp only [← exists_required_iff, ofWire, exists_bind_iff, exists_and_right, exists_pure, and_true, exists_toInt_iff,
    exists_mapM_iff, exists_argumentOfWire_iff, exists_signaturesOfWire_iff]
  constructor
  · rintro ⟨k, hk, hscript, a, ha, items, hitems, harguments, hpayer, z, hz, ⟨others, hothers⟩, ⟨address, haddress⟩, i,
      hi, hindex, _, _, _, p, hp, hpayload, e, he, henvelope⟩
    have hkey : LegibleKey k :=
      ⟨exists_required_iff.mp ⟨address, haddress, trivial⟩, exists_required_iff.mp ⟨i, hi, hindex⟩⟩
    exact ⟨hscript, ⟨a, ha, items, hitems, harguments⟩, hpayer, ⟨z, hz, others, hothers, fun _ _ => trivial⟩,
      ⟨k, hk, hkey⟩, ⟨p, hp, hpayload⟩, e, he, henvelope⟩
  · rintro ⟨hscript, ⟨a, ha, items, hitems, harguments⟩, hpayer, ⟨z, hz, others, hothers, _⟩, ⟨k, hk, hkey⟩,
      ⟨p, hp, hpayload⟩, e, he, henvelope⟩
    obtain ⟨address, haddress, _⟩ := exists_required_iff.mpr hkey.address
    obtain ⟨i, hi, hindex⟩ := exists_required_iff.mpr hkey.keyIndex
    exact ⟨k, hk, hscript, a, ha, items, hitems, harguments, hpayer, z, hz, ⟨others, hothers⟩, ⟨address, haddress⟩, i,
      hi, hindex, exists_optional_of_required haddress _ _, exists_optional_of_required hk _ _,
      exists_optional_of_required hk _ _, p, hp, hpayload, e, he, henvelope⟩

end LooseTransaction

end Signatory
