import Mathlib.Data.List.Nodup
import Signatory.Proofs.Cbor.RoundTrip
import Signatory.Proofs.Text.Basic
import Signatory.Proofs.Transaction.Loosening
import Signatory.Proofs.Wire.Frame
import Signatory.Wire.Message
import Signatory.Wire.Record

/-! Messages read back. What a message of an ordinary size is framed in is read as that message, its maps in canonical
order, and a field of a map is found in it under its name as before. -/

namespace Signatory
set_option autoImplicit false
open Outcome
open Cbor

namespace Cbor.Value

theorem areEntriesUnicode_eq_all (es : List (Value × Value)) :
    areEntriesUnicode es = es.all fun e => e.1.isUnicode && e.2.isUnicode := by
  induction es with
  | nil => rfl
  | cons e es ih => rw [areEntriesUnicode, List.all_cons, ih]

theorem Portable.isUnicode {v : Value} (h : v.Portable) : v.isUnicode = true := by
  induction h with
  | text hs =>
    rw [Value.isUnicode, Bool.not_eq_true', List.any_eq_false]
    simpa using hs
  | list _ ih =>
    rw [Value.isUnicode, areUnicode_eq_all, List.all_eq_true]
    exact ih
  | map _ _ _ _ ihkey ihvalue =>
    rw [Value.isUnicode, areEntriesUnicode_eq_all, List.all_eq_true]
    intro e he
    rw [ihkey e he, ihvalue e he]
    rfl
  | _ => rfl

/-- Portable items with at most so many lists and maps in one another. -/
structure Fits (n : Nat) (v : Value) : Prop where
  portable : v.Portable
  depth : v.depth ≤ n

variable {n : Nat}

theorem Fits.mono {m : Nat} {v : Value} (h : Fits n v) (hn : n ≤ m) : Fits m v :=
  ⟨h.portable, Nat.le_trans h.depth hn⟩

theorem fits_null : Fits n null := ⟨.null, Nat.zero_le n⟩

theorem fits_int (i : Int) : Fits n (int i) := ⟨.int i, Nat.zero_le n⟩

theorem fits_bytes (b : Bytes) : Fits n (bytes b) := ⟨.bytes b, Nat.zero_le n⟩

theorem fits_bool (b : Bool) : Fits n (bool b) := ⟨.bool b, Nat.zero_le n⟩

theorem fits_text {s : Text} (h : ∀ p ∈ s, p.isSurrogate = false) : Fits n (text s) := ⟨.text h, Nat.zero_le n⟩

theorem fits_list {vs : List Value} (h : ∀ v ∈ vs, Fits n v) : Fits (n + 1) (list vs) := by
  refine ⟨.list fun v hv => (h v hv).portable, Nat.succ_le_succ ?_⟩
  induction vs with
  | nil => exact Nat.zero_le n
  | cons v vs ih =>
    rw [List.forall_mem_cons] at h
    exact Nat.max_le.mpr ⟨h.1.depth, ih h.2⟩

theorem fits_bytesList (bs : List Bytes) (n : Nat) : Fits (n + 1) (list (bs.map bytes)) :=
  fits_list (List.forall_mem_map.mpr fun b _ => fits_bytes b)

theorem canonical_bytesList (bs : List Bytes) : (list (bs.map bytes)).canonical = list (bs.map bytes) := by
  rw [canonical_list, List.map_map]
  rfl

end Cbor.Value

namespace Wire
open Value

variable {n : Nat} {fields : List (Text × Value)}

theorem keys_mapOf (fields : List (Text × Value)) :
    Entries.keys (fields.map fun f => (Value.text f.1, f.2)) = (fields.map Prod.fst).map Value.text := by
  rw [Entries.keys, List.map_map, List.map_map]
  rfl

/-- Whether the names of fields are distinct and can be written. -/
structure Named (names : List Text) : Prop where
  nodup : names.Nodup
  ascii : names.all Text.isAscii = true

theorem Named.nodup_keys (h : Named (fields.map Prod.fst)) :
    (Entries.keys (fields.map fun f => (Value.text f.1, f.2))).Nodup := by
  rw [keys_mapOf]
  exact h.nodup.map fun s t hst => Value.text.inj hst

theorem isName_of_mem_mapOf : ∀ e ∈ fields.map fun f => (Value.text f.1, f.2), e.1.IsName := by
  rw [List.forall_mem_map]
  exact fun _ _ => trivial

theorem fits_mapOf (hnames : Named (fields.map Prod.fst)) (h : ∀ f ∈ fields, Fits n f.2) :
    Fits (n + 1) (mapOf fields) := by
  constructor
  · refine .map hnames.nodup_keys isName_of_mem_mapOf ?_ ?_
    · rw [List.forall_mem_map]
      intro f hf
      exact .text (Text.isSurrogate_of_isAscii (List.all_eq_true.mp hnames.ascii f.1 (List.mem_map_of_mem hf)))
    · rw [List.forall_mem_map]
      exact fun f hf => (h f hf).portable
  · refine Nat.succ_le_succ ?_
    clear hnames
    induction fields with
    | nil => exact Nat.zero_le n
    | cons f fields ih =>
      rw [List.forall_mem_cons] at h
      exact Nat.max_le.mpr ⟨h.1.depth, ih h.2⟩

theorem field?_mapOf (hnames : Named (fields.map Prod.fst)) {name : Text} {v : Value} (h : (name, v) ∈ fields) :
    (canonical (mapOf fields)).field? name = some (canonical v) := by
  have hmem : (Value.text name, v) ∈ fields.map fun f => (Value.text f.1, f.2) := List.mem_map.mpr ⟨_, h, rfl⟩
  have hname : (Value.text name).IsName := trivial
  have hfind := (Entries.mem_iff_find?_of_alike (fun e he => (isName_of_mem_mapOf e he).alike_iff hname)
    hnames.nodup_keys).mp hmem
  rw [mapOf, field?_canonical isName_of_mem_mapOf hnames.nodup_keys, Value.field?, hfind, Option.map_some]

theorem required_mapOf (hnames : Named (fields.map Prod.fst)) (name : Text) (v : Value) (h : (name, v) ∈ fields) :
    required name (canonical (mapOf fields)) = .ok (canonical v) := by
  have hfield := field?_mapOf hnames h
  rw [mapOf, canonical_map] at hfield ⊢
  rw [required, hfield]

theorem optional_mapOf (hnames : Named (fields.map Prod.fst)) (name : Text) (v : Value) (h : (name, v) ∈ fields)
    (default : Value) : optional name default (canonical (mapOf fields)) = .ok (canonical v) := by
  have hfield := field?_mapOf hnames h
  rw [mapOf, canonical_map] at hfield ⊢
  rw [optional, hfield, Option.getD_some]

theorem encodeMessage_of_portable {v : Value} (h : v.Portable) :
    encodeMessage v = .ok (Frame.wrap (Cbor.encode v)) := by
  rw [encodeMessage, Cbor.encode?, h.isUnicode, if_pos rfl]

theorem length_encodeMessage_lt {v : Value} {data : Bytes} (hdata : encodeMessage v = .ok data)
    (h : (Cbor.encode v).length + 6 < Frame.sizeLimit) : data.length < Frame.sizeLimit := by
  rw [encodeMessage, Cbor.encode?] at hdata
  by_cases hv : v.isUnicode = true
  · rw [if_pos hv] at hdata
    obtain rfl := Except.ok.inj hdata
    exact Nat.lt_of_le_of_lt (Frame.length_wrap_le _ (Nat.lt_of_le_of_lt (Nat.le_add_right _ 6) h)) h
  · rw [if_neg hv] at hdata
    cases hdata

/-- In a frame a map is read as it is read without one. -/
theorem decodeMessage_wrap {es : List (Value × Value)} (hsize : (Cbor.encode (.map es)).length < Frame.sizeLimit) :
    decodeMessage (Frame.wrap (Cbor.encode (.map es))) =
      match Cbor.decode? (Cbor.encode (.map es)) with
      | none => .error .malformedMessage
      | some (.map fs) => .ok (.map fs)
      | some v => .error (.notAMap (kind v)) := by
  obtain ⟨b, rest, hb, _⟩ := encode_eq_cons (.map es)
  rw [hb] at hsize ⊢
  rewrite [decodeMessage, Frame.unwrap?_wrap (List.cons_ne_nil b rest) hsize]
  rfl

/-- A message shorter than the largest size of a frame is read back. -/
theorem decodeMessage_encodeMessage {es : List (Value × Value)} (h : Fits maxDepth (.map es)) {data : Bytes}
    (hdata : encodeMessage (.map es) = .ok data) (hsize : data.length < Frame.sizeLimit) :
    decodeMessage data = .ok (canonical (.map es)) := by
  obtain rfl := Except.ok.inj ((encodeMessage_of_portable h.portable).symm.trans hdata)
  have hpayload : (Cbor.encode (.map es)).length < Frame.sizeLimit :=
    Nat.lt_of_le_of_lt (Frame.length_le_length_wrap _) hsize
  have hread := decode?_encode h.portable h.depth (Nat.lt_trans hpayload (by decide))
  rw [decodeMessage_wrap hpayload, hread, canonical_map]

end Wire

end Signatory
