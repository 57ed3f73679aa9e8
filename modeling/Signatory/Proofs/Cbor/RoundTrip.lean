import Mathlib.Data.List.Perm.Basic
import Signatory.Cbor.Decoder
import Signatory.Proofs.Binary64.Rounding
import Signatory.Proofs.Cbor.Cut
import Signatory.Proofs.Number
import Signatory.Proofs.OrderedMap
import Signatory.Proofs.Text.Utf8

/-! Items read back: what an item is written as is read as that item, with the entries of its maps in canonical order. -/

namespace Signatory.Cbor
set_option autoImplicit false

namespace Value

/-- What may name an entry of a map: a text, a byte string or an integer. -/
def IsName : Value → Prop
  | text _ | bytes _ | int _ => True
  | _ => False

/-- Items that come back as they went. -/
inductive Portable : Value → Prop where
  | null : Portable null
  | bool (b : Bool) : Portable (bool b)
  | int (i : Int) : Portable (int i)
  | float (x : Binary64) : Portable (float x)
  | bytes (b : Bytes) : Portable (bytes b)
  | text {s : Text} : (∀ p ∈ s, p.isSurrogate = false) → Portable (text s)
  | list {vs : List Value} : (∀ v ∈ vs, Portable v) → Portable (list vs)
  | map {es : List (Value × Value)} : (Entries.keys es).Nodup → (∀ e ∈ es, e.1.IsName) → (∀ e ∈ es, Portable e.1) →
      (∀ e ∈ es, Portable e.2) → Portable (map es)

def entryLe (e f : Value × Value) : Bool := keyLe (encode e.1) (encode f.1)

mutual

/-- The item with the entries of every map in canonical order. -/
def canonical : Value → Value
  | list vs => list (canonicalAll vs)
  | map es => map ((canonicalEntries es).mergeSort entryLe)
  | v => v

def canonicalAll : List Value → List Value
  | [] => []
  | v :: vs => canonical v :: canonicalAll vs

def canonicalEntries : List (Value × Value) → List (Value × Value)
  | [] => []
  | (k, v) :: es => (k, canonical v) :: canonicalEntries es

end

mutual

/-- How many lists and maps stand in one another. -/
def depth : Value → Nat
  | list vs => depthAll vs + 1
  | map es => depthEntries es + 1
  | _ => 0

def depthAll : List Value → Nat
  | [] => 0
  | v :: vs => max (depth v) (depthAll vs)

def depthEntries : List (Value × Value) → Nat
  | [] => 0
  | (_, v) :: es => max (depth v) (depthEntries es)

end

theorem canonicalAll_eq_map (vs : List Value) : canonicalAll vs = vs.map canonical := by
  induction vs with
  | nil => rfl
  | cons v vs ih => rw [canonicalAll, List.map_cons, ih]

theorem canonicalEntries_eq_map (es : List (Value × Value)) :
    canonicalEntries es = es.map fun e => (e.1, canonical e.2) := by
  induction es with
  | nil => rfl
  | cons e es ih => rw [canonicalEntries, List.map_cons, ih]

theorem canonical_list (vs : List Value) : canonical (.list vs) = .list (vs.map canonical) := by
  rw [canonical, canonicalAll_eq_map]

/-- The entries of a map in the order in which they are written, themselves in canonical order. -/
def inOrder (es : List (Value × Value)) : List (Value × Value) :=
  (es.mergeSort entryLe).map fun e => (e.1, canonical e.2)

theorem canonical_map (es : List (Value × Value)) : canonical (.map es) = .map (inOrder es) := by
  rw [canonical, canonicalEntries_eq_map, inOrder, List.map_mergeSort]
  intro e _ f _
  rfl

theorem inOrder_perm (es : List (Value × Value)) : (inOrder es).Perm (es.map fun e => (e.1, canonical e.2)) :=
  (List.mergeSort_perm es entryLe).map _

theorem keys_inOrder_perm (es : List (Value × Value)) : (Entries.keys (inOrder es)).Perm (Entries.keys es) := by
  have hmap := (inOrder_perm es).map Prod.fst
  rwa [List.map_map] at hmap

theorem depth_le_depthEntries {e : Value × Value} {es : List (Value × Value)} (h : e ∈ es) :
    depth e.2 ≤ depthEntries es := by
  induction h with
  | head => exact Nat.le_max_left _ _
  | tail _ _ ih => exact Nat.le_trans ih (Nat.le_max_right _ _)

/-- Names are equal items when they are alike. -/
theorem IsName.alike_iff {k l : Value} (hk : k.IsName) (hl : l.IsName) : (k == l) = true ↔ k = l := by
  have hscalar : (k == l) = alikeScalar k l := by
    cases k <;> cases l <;> first | rfl | exact hk.elim
  cases k with
  | int i =>
    rw [int_alike_iff]
    cases l with
    | int j =>
      constructor
      · rintro ⟨n, hn, hrat⟩
        obtain rfl := Option.some.inj hn
        have hrat := (BinaryValue.rat?_ofInt j).symm.trans hrat
        rw [Option.some.injEq, Int.cast_inj] at hrat
        rw [hrat]
      · rintro ⟨rfl⟩
        exact ⟨_, rfl, BinaryValue.rat?_ofInt i⟩
    | text _ => simp [number?]
    | bytes _ => simp [number?]
    | _ => exact hl.elim
  | text s => cases l <;> first | exact hl.elim | simp [hscalar, alikeScalar, number?]
  | bytes b => cases l <;> first | exact hl.elim | simp [hscalar, alikeScalar, number?]
  | _ => exact hk.elim

/-- Under its name a field is found in whatever order the entries stand. -/
theorem field?_canonical {es : List (Value × Value)} (hnames : ∀ e ∈ es, e.1.IsName) (hnodup : (Entries.keys es).Nodup)
    (name : Text) : (canonical (.map es)).field? name = ((Value.map es).field? name).map canonical := by
  rw [canonical_map]
  exact Entries.find?_of_perm (inOrder_perm es) (fun e he => (hnames e he).alike_iff trivial) hnodup

end Value

open Value

theorem encodeAll_eq_map (vs : List Value) : encodeAll vs = vs.map encode := by
  induction vs with
  | nil => rfl
  | cons v vs ih => rw [encodeAll, List.map_cons, ih]

theorem encodeEntries_eq_map (es : List (Value × Value)) :
    encodeEntries es = es.map fun e => (encode e.1, encode e.2) := by
  induction es with
  | nil => rfl
  | cons e es ih => rw [encodeEntries, List.map_cons, ih]

theorem encode_list (vs : List Value) : encode (.list vs) = head 4 vs.length ++ vs.flatMap encode := by
  rw [encode, encodeAll_eq_map, List.flatMap_def]

theorem encode_map (es : List (Value × Value)) : encode (.map es) =
    head 5 es.length ++ (es.mergeSort entryLe).flatMap fun e => encode e.1 ++ encode e.2 := by
  have hsorted : sortEntries (encodeEntries es) = (es.mergeSort entryLe).map fun e => (encode e.1, encode e.2) := by
    rw [encodeEntries_eq_map, sortEntries, List.map_mergeSort]
    intro e _ f _
    rfl
  rw [encode, hsorted, List.flatMap_map]

theorem length_encode_map (es : List (Value × Value)) : (encode (.map es)).length =
    (head 5 es.length).length + (es.flatMap fun e => encode e.1 ++ encode e.2).length := by
  rw [encode_map, List.length_append, ((List.mergeSort_perm es entryLe).flatMap_right _).length_eq]

theorem one_le_length_encode (v : Value) : 1 ≤ (encode v).length := by
  obtain ⟨b, rest, hv, _⟩ := encode_eq_cons v
  rw [hv, List.length_cons]
  exact Nat.le_add_left 1 _

theorem length_le_flatMap_encode (vs : List Value) : vs.length ≤ (vs.flatMap encode).length := by
  induction vs with
  | nil => exact Nat.le_refl 0
  | cons v vs ih =>
    have hv := one_le_length_encode v
    rw [List.flatMap_cons, List.length_append, List.length_cons]
    omega

theorem length_le_flatMap_entries (es : List (Value × Value)) :
    es.length ≤ (es.flatMap fun e => encode e.1 ++ encode e.2).length := by
  induction es with
  | nil => exact Nat.le_refl 0
  | cons e es ih =>
    have hk := one_le_length_encode e.1
    rw [List.flatMap_cons, List.length_append, List.length_append, List.length_cons]
    omega

theorem take?_append {n : Nat} {b : Bytes} (h : b.length = n) (rest : Bytes) : take? n (b ++ rest) = some (b, rest) := by
  subst h
  rw [take?, List.take_left, if_pos rfl, List.splitAt_eq, List.take_left, List.drop_left]

theorem argument?_headTail {n : Nat} (h : n < 2 ^ 64) (rest : Bytes) :
    argument? (headInfo n) (headTail n ++ rest) = some (n, rest) := by
  unfold argument?
  rcases head_forms n with ⟨hn, hinfo, htail⟩ | ⟨k, hk, hn, hinfo, htail⟩ | ⟨hinfo, _⟩
  · rw [hinfo, htail, if_pos hn, List.nil_append]
  · rw [hinfo, htail, if_neg (by omega), if_neg (by omega), Nat.add_sub_cancel_left, Nat.pow_eq,
      take?_append (Bytes.length_ofNat _ _), Option.map_some, Bytes.toNat_ofNat hn]
  · unfold headInfo at hinfo
    repeat' split at hinfo
    all_goals omega

/-- No head begins an item of indefinite length. -/
theorem headInfo_ne (n : Nat) : headInfo n ≠ 31 := by
  unfold headInfo
  repeat' split
  all_goals omega

theorem chunk?_append {b : Bytes} (h : b.length < 2 ^ 64) (rest : Bytes) :
    chunk? (headInfo b.length) (headTail b.length ++ (b ++ rest)) = some (b, rest) := by
  rw [chunk?, argument?_headTail h]
  exact take?_append rfl rest

theorem string?_append {major : Nat} {b : Bytes} (h : b.length < 2 ^ 64) (rest : Bytes) :
    string? major (headInfo b.length) (headTail b.length ++ (b ++ rest)) = some ([b], rest) := by
  rw [string?, if_neg (headInfo_ne _), chunk?_append h, Option.map_some]

section

variable {fuel : Nat} {room : Nat} {inKey : Bool} {rest : Bytes}

theorem item?_bytes {b : Bytes} (h : b.length < 2 ^ 64) :
    item? (fuel + 1) room inKey (encode (.bytes b) ++ rest) = some (.bytes b, rest) := by
  have hfirst := first_of_head (show 2 < 8 by decide) b.length
  simp only [encode, encodeBytes, head, List.cons_append, List.append_assoc, item?, hfirst.1, hfirst.2,
    string?_append h]
  simp

theorem item?_text {s : Text} (hs : ∀ p ∈ s, p.isSurrogate = false) (h : (Text.Utf8.encode s).length < 2 ^ 64) :
    item? (fuel + 1) room inKey (encode (.text s) ++ rest) = some (.text s, rest) := by
  have hfirst := first_of_head (show 3 < 8 by decide) (Text.Utf8.encode s).length
  simp only [encode, encodeText, head, List.cons_append, List.append_assoc, item?, hfirst.1, hfirst.2,
    string?_append h]
  simp [Text.Utf8.decode?_encode hs]

theorem toNat_magnitude (n : Nat) : (magnitude n).toNat = n := Bytes.toNat_ofNat (lt_pow_magnitude n)

/-- A number in a head, or a tag on its bytes. -/
theorem item?_nat {major n : Nat} (hmajor : major < 2) (h : (encodeNat major n).length < 2 ^ 64) :
    item? (fuel + 2) room inKey (encodeNat major n ++ rest) =
      some (.int (if major = 0 then (n : Int) else -1 - (n : Int)), rest) := by
  unfold encodeNat at h ⊢
  split
  · rename_i hn
    have hfirst := first_of_head (show major < 8 by omega) n
    simp only [head, List.cons_append, item?, hfirst.1, hfirst.2, argument?_headTail hn, Option.map_some]
    rcases (by omega : major = 0 ∨ major = 1) with rfl | rfl <;> rfl
  · rename_i hn
    rw [if_neg hn, encodeBytes, List.length_append, List.length_append] at h
    have hfirst := first_of_head (show 6 < 8 by decide) (2 + major)
    have hitem : item? (fuel + 1) room inKey (encodeBytes (magnitude n) ++ rest) = some (.bytes (magnitude n), rest) :=
      item?_bytes (by omega)
    simp only [head, List.cons_append, List.append_assoc, item?, hfirst.1, hfirst.2]
    rw [argument?_headTail (by omega)]
    simp only [Option.bind_eq_bind, Option.bind_some, hitem]
    rcases (by omega : major = 0 ∨ major = 1) with rfl | rfl <;> simp [ofTag?, bigNumber?, toNat_magnitude]

theorem item?_int {i : Int} (h : (encode (.int i)).length < 2 ^ 64) :
    item? (fuel + 2) room inKey (encode (.int i) ++ rest) = some (.int i, rest) := by
  cases i with
  | ofNat n => exact item?_nat (by decide) h
  | negSucc n =>
    have hvalue : (-1 - (n : Int)) = Int.negSucc n := by omega
    exact (item?_nat (by decide) h).trans (by simp [hvalue])

theorem item?_name {k : Value} (hk : k.IsName) (hportable : k.Portable) (h : (encode k).length < 2 ^ 64) :
    item? (fuel + 2) room inKey (encode k ++ rest) = some (k, rest) := by
  cases hportable with
  | int i => exact item?_int h
  | bytes b =>
    rw [encode, encodeBytes, List.length_append] at h
    exact item?_bytes (by omega)
  | text hs =>
    rw [encode, encodeText, List.length_append] at h
    exact item?_text hs (by omega)
  | _ => exact hk.elim

end

/-- An item is read back in front of whatever follows, with room and fuel enough for it. -/
def Reads (v : Value) : Prop :=
  ∀ (fuel room : Nat) (rest : Bytes), 2 * (encode v).length ≤ fuel → v.depth ≤ room → (encode v).length < 2 ^ 64 →
    item? fuel room false (encode v ++ rest) = some (canonical v, rest)

theorem items?_of_reads {vs : List Value} (h : ∀ v ∈ vs, Reads v) (fuel : Nat) {room : Nat} (rest : Bytes)
    (hfuel : 2 * (vs.flatMap encode).length + 1 ≤ fuel) (hroom : depthAll vs ≤ room)
    (hsize : (vs.flatMap encode).length < 2 ^ 64) :
    items? fuel room false vs.length (vs.flatMap encode ++ rest) = some (vs.map canonical, rest) := by
  -- An item costs one of the fuel, and has a byte at least: two of the fuel for each byte suffice.
  induction vs generalizing fuel with
  | nil => rw [List.flatMap_nil, List.nil_append, List.length_nil, items?, List.map_nil]
  | cons v vs ih =>
    have hone := one_le_length_encode v
    rw [List.flatMap_cons, List.length_append] at hfuel hsize
    rw [depthAll] at hroom
    obtain ⟨n, rfl⟩ : ∃ n, fuel = n + 1 := ⟨fuel - 1, by omega⟩
    have hfirst := h v List.mem_cons_self n room (vs.flatMap encode ++ rest) (by omega) (by omega) (by omega)
    have hrest := ih (fun w hw => h w (List.mem_cons_of_mem v hw)) n (by omega) (by omega) (by omega)
    rw [List.flatMap_cons, List.append_assoc, List.length_cons, items?]
    simp only [hfirst, Option.bind_eq_bind, Option.bind_some, hrest]
    rfl

theorem entries?_of_reads {es : List (Value × Value)} (hnames : ∀ e ∈ es, e.1.IsName)
    (hkeys : ∀ e ∈ es, e.1.Portable) (h : ∀ e ∈ es, Reads e.2) (fuel : Nat) {room : Nat} (rest : Bytes)
    (hfuel : 2 * (es.flatMap fun e => encode e.1 ++ encode e.2).length + 1 ≤ fuel) (hroom : ∀ e ∈ es, e.2.depth ≤ room)
    (hsize : (es.flatMap fun e => encode e.1 ++ encode e.2).length < 2 ^ 64) :
    entries? fuel room false es.length ((es.flatMap fun e => encode e.1 ++ encode e.2) ++ rest) =
      some (es.map fun e => (e.1, canonical e.2), rest) := by
  induction es generalizing fuel with
  | nil => rw [List.flatMap_nil, List.nil_append, List.length_nil, entries?, List.map_nil]
  | cons e es ih =>
    rw [List.forall_mem_cons] at hnames hkeys h hroom
    have hone := one_le_length_encode e.1
    rw [List.flatMap_cons, List.length_append, List.length_append] at hfuel hsize
    obtain ⟨n, rfl⟩ : ∃ n, fuel = n + 2 + 1 := ⟨fuel - 3, by omega⟩
    have hkey (after : Bytes) : item? (n + 2) room true (encode e.1 ++ after) = some (e.1, after) :=
      item?_name hnames.1 hkeys.1 (by omega)
    have hvalue := h.1 (n + 2) room ((es.flatMap fun e => encode e.1 ++ encode e.2) ++ rest) (by omega) hroom.1 (by omega)
    have hrest := ih hnames.2 hkeys.2 h.2 (n + 2) (by omega) hroom.2 (by omega)
    rw [List.flatMap_cons, List.append_assoc, List.append_assoc, List.length_cons, entries?]
    simp only [hkey, Option.bind_eq_bind, Option.bind_some, hvalue, hrest]
    rfl

theorem collect_inOrder {es : List (Value × Value)} (hnames : ∀ e ∈ es, e.1.IsName) (hnodup : (Entries.keys es).Nodup) :
    Entries.collect (inOrder es) = inOrder es := by
  have hperm := keys_inOrder_perm es
  have hname {e : Value × Value} (he : e ∈ inOrder es) : e.1.IsName := by
    obtain ⟨f, hf, hkey⟩ := List.mem_map.mp (hperm.mem_iff.mp (List.mem_map_of_mem (f := Prod.fst) he))
    rw [← hkey]
    exact hnames f hf
  apply Entries.collect_of_pairwise
  have hne := hperm.nodup_iff.mpr hnodup
  rw [Entries.keys, List.nodup_iff_pairwise_ne, List.pairwise_map] at hne
  refine hne.imp_of_mem fun {e f} he hf hne => ?_
  rw [← Bool.not_eq_true, (hname he).alike_iff (hname hf)]
  exact hne

theorem canonical_name {k : Value} (hk : k.IsName) : canonical k = k := by
  cases k with
  | int _ | bytes _ | text _ => rfl
  | _ => exact hk.elim

theorem reads_of_name {k : Value} (hk : k.IsName) (hportable : k.Portable) : Reads k := by
  intro fuel room rest hfuel _ hsize
  have hone := one_le_length_encode k
  obtain ⟨n, rfl⟩ : ∃ n, fuel = n + 2 := ⟨fuel - 2, by omega⟩
  rw [canonical_name hk]
  exact item?_name hk hportable hsize

theorem reads_null : Reads .null := by
  intro fuel room rest hfuel _ _
  have hone := one_le_length_encode .null
  obtain ⟨n, rfl⟩ : ∃ n, fuel = n + 1 := ⟨fuel - 1, by omega⟩
  simp [item?, encode, special?, canonical]

theorem reads_bool (b : Bool) : Reads (.bool b) := by
  intro fuel room rest hfuel _ _
  have hone := one_le_length_encode (.bool b)
  obtain ⟨n, rfl⟩ : ∃ n, fuel = n + 1 := ⟨fuel - 1, by omega⟩
  cases b <;> simp [item?, encode, special?, canonical]

/-- The formats that doubles are written in, the narrowest first. -/
def floatFormat : Nat → BinaryFormat
  | 0 => .half
  | 1 => .single
  | _ => .double

/-- A double is written in one of three formats, and is what the pattern of that format denotes. -/
theorem encodeFloat_forms (x : Binary64) : ∃ k n, k < 3 ∧ n < 256 ^ 2 ^ (k + 1) ∧
    encodeFloat x = UInt8.ofNat (0xF9 + k) :: Bytes.ofNat (2 ^ (k + 1)) n ∧
    .ofValue ((floatFormat k).value n) = x := by
  unfold encodeFloat
  dsimp only
  split
  · rename_i hhalf
    exact ⟨0, _, by decide, BinaryFormat.ofValue_lt x.value, rfl, hhalf⟩
  split
  · rename_i hsingle
    exact ⟨1, _, by decide, BinaryFormat.ofValue_lt x.value, rfl, hsingle⟩
  · exact ⟨2, _, by decide, x.bits_lt, rfl, x.ofValue_value⟩

theorem float?_append {k n : Nat} (hk : k < 3) (hn : n < 256 ^ 2 ^ (k + 1)) (rest : Bytes) :
    float? (25 + k) (Bytes.ofNat (2 ^ (k + 1)) n ++ rest) = some (.ofValue ((floatFormat k).value n), rest) := by
  have htake := take?_append (Bytes.length_ofNat (2 ^ (k + 1)) n) rest
  rcases (by omega : k = 0 ∨ k = 1 ∨ k = 2) with rfl | rfl | rfl
  all_goals simp only [float?, Nat.reduceAdd, Nat.reduceEqDiff, Nat.reducePow, if_true, if_false, Option.bind_eq_bind,
    Option.bind_some] at htake hn ⊢
  all_goals rw [htake, Option.bind_some, Bytes.toNat_ofNat hn]
  all_goals rfl

theorem reads_float (x : Binary64) : Reads (.float x) := by
  intro fuel room rest hfuel _ _
  have hone := one_le_length_encode (.float x)
  obtain ⟨m, rfl⟩ : ∃ m, fuel = m + 1 := ⟨fuel - 1, by omega⟩
  obtain ⟨k, n, hk, hn, hencode, hvalue⟩ := encodeFloat_forms x
  have hread := float?_append hk hn rest
  have hfirst : (UInt8.ofNat (0xF9 + k)).toNat = 0xF9 + k := Text.Utf8.toNat_ofNat_of_lt (by omega)
  have hmajor : (0xF9 + k) / 32 = 7 := by omega
  have hinfo : (0xF9 + k) % 32 = 25 + k := by omega
  rw [encode, hencode, List.cons_append, item?, hfirst, hmajor, hinfo, canonical]
  simp only [Nat.reduceEqDiff, if_false, special?]
  rw [if_neg (by omega), if_neg (by omega), if_neg (by omega), if_neg (by omega), if_neg (by omega), hread, hvalue,
    Option.map_some]
  · exact fun _ => Value.noConfusion
  · exact fun _ => Value.noConfusion

theorem item?_list {fuel room count : Nat} (hcount : count < 2 ^ 64) (body : Bytes) :
    item? (fuel + 1) (room + 1) false (head 4 count ++ body) =
      (items? fuel room false count body).map fun r => (.list r.1, r.2) := by
  have hfirst := first_of_head (show 4 < 8 by decide) count
  have hinfo : headInfo count ≠ 31 := headInfo_ne count
  simp only [head, List.cons_append, item?, hfirst.1, hfirst.2, inside?]
  simp only [Nat.reduceEqDiff, if_false, if_true, Nat.add_eq_zero_iff, and_false, Option.bind_eq_bind,
    Option.bind_some, hinfo, argument?_headTail hcount, Nat.add_sub_cancel]
  cases items? fuel room false count body <;> rfl

theorem item?_map {fuel room count : Nat} (hcount : count < 2 ^ 64) (body : Bytes) :
    item? (fuel + 1) (room + 1) false (head 5 count ++ body) =
      (entries? fuel room false count body).map fun r => (.map (Entries.collect r.1), r.2) := by
  have hfirst := first_of_head (show 5 < 8 by decide) count
  have hinfo : headInfo count ≠ 31 := headInfo_ne count
  simp only [head, List.cons_append, item?, hfirst.1, hfirst.2, inside?]
  simp only [Nat.reduceEqDiff, if_false, if_true, Nat.add_eq_zero_iff, and_false, Option.bind_eq_bind,
    Option.bind_some, hinfo, argument?_headTail hcount, Nat.add_sub_cancel]
  cases entries? fuel room false count body <;> rfl

theorem reads_list {vs : List Value} (h : ∀ v ∈ vs, Reads v) : Reads (.list vs) := by
  intro fuel room rest hfuel hroom hsize
  have hcount := length_le_flatMap_encode vs
  rw [encode_list, head, List.length_append, List.length_cons] at hfuel hsize
  rw [depth] at hroom
  obtain ⟨n, rfl⟩ : ∃ n, fuel = n + 1 := ⟨fuel - 1, by omega⟩
  obtain ⟨room, rfl⟩ : ∃ r, room = r + 1 := ⟨room - 1, by omega⟩
  have hitems : items? n room false vs.length (vs.flatMap encode ++ rest) = some (vs.map canonical, rest) :=
    items?_of_reads h n rest (by omega) (by omega) (by omega)
  rw [encode_list, canonical_list, List.append_assoc, item?_list (by omega), hitems, Option.map_some]

theorem reads_map {es : List (Value × Value)} (hnodup : (Entries.keys es).Nodup) (hnames : ∀ e ∈ es, e.1.IsName)
    (hkeys : ∀ e ∈ es, e.1.Portable) (h : ∀ e ∈ es, Reads e.2) : Reads (.map es) := by
  intro fuel room rest hfuel hroom hsize
  have hcollect := collect_inOrder hnames hnodup
  have hperm := List.mergeSort_perm es entryLe
  have hcount := length_le_flatMap_entries (es.mergeSort entryLe)
  rw [encode_map, head, List.length_append, List.length_cons] at hfuel hsize
  rw [depth] at hroom
  obtain ⟨n, rfl⟩ : ∃ n, fuel = n + 1 := ⟨fuel - 1, by omega⟩
  obtain ⟨room, rfl⟩ : ∃ r, room = r + 1 := ⟨room - 1, by omega⟩
  have hdepth : ∀ e ∈ es.mergeSort entryLe, e.2.depth ≤ room := by
    intro e he
    have hone := depth_le_depthEntries (hperm.mem_iff.mp he)
    omega
  have hlength := hperm.length_eq
  -- What is read are the entries in the order in which they are written.
  have hentries := entries?_of_reads (fun e he => hnames e (hperm.mem_iff.mp he))
    (fun e he => hkeys e (hperm.mem_iff.mp he)) (fun e he => h e (hperm.mem_iff.mp he)) n rest (by omega) hdepth
    (by omega)
  rw [encode_map, canonical_map, List.append_assoc, ← hcollect, ← hlength, item?_map (by omega), hentries,
    Option.map_some, inOrder]

theorem reads_of_portable {v : Value} (h : v.Portable) : Reads v := by
  induction h with
  | null => exact reads_null
  | bool b => exact reads_bool b
  | int i => exact reads_of_name trivial (.int i)
  | float x => exact reads_float x
  | bytes b => exact reads_of_name trivial (.bytes b)
  | text hs => exact reads_of_name trivial (.text hs)
  | list _ ih => exact reads_list ih
  | map hnodup hnames hkeys _ _ ih => exact reads_map hnodup hnames hkeys ih

/-- A written item is read back, its maps in canonical order. -/
theorem decode?_encode {v : Value} (h : v.Portable) (hdepth : v.depth ≤ maxDepth)
    (hsize : (encode v).length < 2 ^ 64) : decode? (encode v) = some (canonical v) := by
  have hitem := reads_of_portable h (2 * (encode v).length + 2) maxDepth [] (Nat.le_add_right _ 2) hdepth hsize
  rw [List.append_nil] at hitem
  rw [decode?, hitem, Option.map_some]

end Signatory.Cbor
