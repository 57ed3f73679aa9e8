import Signatory.Proofs.Cbor.Canonical
import Signatory.Proofs.Cbor.Depth
import Signatory.Proofs.Wire.Message

/-! What the bytes of a message tell: the map up to the order of its entries. From its bytes a map is read back if it is
no deeper than a reader allows and no longer than a frame may be; otherwise it is refused, and never read as another. -/

namespace Signatory.Wire
set_option autoImplicit false
open Cbor
open Cbor.Value

theorem encode_ne_nil (v : Value) : Cbor.encode v ≠ [] := by
  obtain ⟨b, rest, hv, _⟩ := encode_eq_cons v
  rw [hv]
  exact List.cons_ne_nil b rest

theorem encodeMessage_eq_iff {v w : Value} (hv : v.Portable) (hw : w.Portable) :
    encodeMessage v = encodeMessage w ↔ Reordered v w := by
  rw [encodeMessage_of_portable hv, encodeMessage_of_portable hw, ← encode_eq_iff hv hw]
  constructor
  · intro h
    exact Frame.wrap_inj (encode_ne_nil v) (encode_ne_nil w) (Except.ok.inj h)
  · intro h
    rw [h]

section

variable {es : List (Value × Value)}

/-- What a map's bytes are read as. -/
theorem decodeMessage_of_portable (h : (Value.map es).Portable) :
    decodeMessage (Frame.wrap (Cbor.encode (.map es))) =
      if Frame.sizeLimit ≤ (Cbor.encode (.map es)).length then .error .badFrame
      else if maxDepth < (Value.map es).depth then .error .malformedMessage
      else .ok (canonical (.map es)) := by
  split
  · rename_i hlong
    rw [decodeMessage, Frame.unwrap?_wrap_eq_none hlong]
  · rename_i hshort
    have hsize : (Cbor.encode (.map es)).length < Frame.sizeLimit := Nat.lt_of_not_le hshort
    have hlength : (Cbor.encode (.map es)).length < 2 ^ 64 := Nat.lt_trans hsize (by decide)
    rw [decodeMessage_wrap hsize]
    rcases Nat.lt_or_ge maxDepth (Value.map es).depth with hdeep | hflat
    · rw [decode?_encode_eq_none h hdeep hlength, if_pos hdeep]
    · rw [decode?_encode h hflat hlength, if_neg (Nat.not_lt_of_le hflat), canonical_map]

end

/-- Maps have the same bytes as messages exactly when they differ at most in the order of map entries. From its bytes
a map is read up to that order, unless its lists and maps stand deeper in one another than a reader allows or its bytes
are too many for a frame; then reading fails. -/
theorem message_tells_map :
    (∀ es, (Value.map es).Portable → ∃ data, encodeMessage (.map es) = .ok data ∧
      ((Value.map es).depth ≤ maxDepth → (Cbor.encode (.map es)).length < Frame.sizeLimit →
        ∃ m, decodeMessage data = .ok m ∧ Reordered (.map es) m) ∧
      (¬((Value.map es).depth ≤ maxDepth ∧ (Cbor.encode (.map es)).length < Frame.sizeLimit) →
        ∃ e, decodeMessage data = .error e)) ∧
    (∀ es fs, (Value.map es).Portable → (Value.map fs).Portable →
      (encodeMessage (.map es) = encodeMessage (.map fs) ↔ Reordered (.map es) (.map fs))) := by
  refine ⟨?_, ?_⟩
  · intro es h
    refine ⟨_, encodeMessage_of_portable h, ?_, ?_⟩
    · intro hdepth hsize
      have hread := decodeMessage_of_portable h
      rw [if_neg (Nat.not_le_of_lt hsize), if_neg (Nat.not_lt_of_le hdepth)] at hread
      exact ⟨_, hread, (reordered_iff h).mpr (canonical_canonical h).symm⟩
    · intro hlimits
      rw [decodeMessage_of_portable h]
      split
      · exact ⟨_, rfl⟩
      split
      · exact ⟨_, rfl⟩
      · rename_i hsize hdepth
        exact absurd ⟨Nat.le_of_not_lt hdepth, Nat.lt_of_not_le hsize⟩ hlimits
  · intro es fs hes hfs
    exact encodeMessage_eq_iff hes hfs

/-- Two entries, the value of one a list with a map in it. -/
def sampleEntries : List (Value × Value) :=
  [(.text "b", .list [.null, .bool true, .float .nan, .map [(.bytes [0], .int (-18446744073709551617))]]),
    (.int (-1), .text "a")]

theorem portable_sampleEntries : (Value.map sampleEntries).Portable := by
  have hinner : (Value.map [(.bytes [0], .int (-18446744073709551617))]).Portable := by
    refine .map (by simp [Entries.keys]) ?_ ?_ ?_ <;> simp [IsName, Portable.bytes, Portable.int]
  have htext (s : Text) (h : s.isAscii = true) : (Value.text s).Portable := .text (Text.isSurrogate_of_isAscii h)
  have hlist : (Value.list [.null, .bool true, .float .nan,
      .map [(.bytes [0], .int (-18446744073709551617))]]).Portable := by
    apply Portable.list
    simp [Portable.null, Portable.bool, Portable.float, hinner]
  refine .map (by simp [Entries.keys, sampleEntries]) ?_ ?_ ?_
  · simp [sampleEntries, IsName]
  · simp [sampleEntries, Portable.int, htext "b" (by decide)]
  · simp [sampleEntries, hlist, htext "a" (by decide)]

theorem length_encode_sampleEntries : (Cbor.encode (.map sampleEntries)).length < Frame.sizeLimit := by
  simp only [sampleEntries, length_encode_map, encode_list, List.flatMap_cons, List.flatMap_nil, List.append_nil,
    List.length_append]
  decide

/-- Entries that change places change no bytes, and the map comes back. -/
theorem message_tells_sample :
    encodeMessage (.map sampleEntries) = encodeMessage (.map sampleEntries.reverse) ∧
    (∃ data m, encodeMessage (.map sampleEntries) = .ok data ∧ decodeMessage data = .ok m ∧
      Reordered (.map sampleEntries) m) := by
  obtain ⟨hread, hiff⟩ := message_tells_map
  have hportable := portable_sampleEntries
  have hreversed : (Value.map sampleEntries.reverse).Portable := by
    cases hportable with
    | map hnodup hnames hkeys hvalues =>
      have hnodup' : (Entries.keys sampleEntries.reverse).Nodup := by
        rw [Entries.keys, List.map_reverse]
        exact List.nodup_reverse.mpr hnodup
      exact .map hnodup' (fun e he => hnames e (List.mem_reverse.mp he)) (fun e he => hkeys e (List.mem_reverse.mp he))
        (fun e he => hvalues e (List.mem_reverse.mp he))
  constructor
  · exact (hiff _ _ hportable hreversed).mpr (reordered_of_perm (List.reverse_perm sampleEntries).symm)
  · obtain ⟨data, hdata, hback, _⟩ := hread _ hportable
    obtain ⟨m, hm, hreordered⟩ := hback (by decide) length_encode_sampleEntries
    exact ⟨data, m, hdata, hm, hreordered⟩

-- A map that is too deep.
def nested : Nat → Value
  | 0 => .int 0
  | n + 1 => .list [nested n]

theorem portable_nested (n : Nat) : (nested n).Portable := by
  induction n with
  | zero => exact .int 0
  | succ n ih => exact .list (List.forall_mem_singleton.mpr ih)

theorem depth_nested (n : Nat) : (nested n).depth = n := by
  induction n with
  | zero => rfl
  | succ n ih => rw [nested, depth, depthAll, depthAll, ih, Nat.max_zero]

theorem length_encode_nested (n : Nat) : (Cbor.encode (nested n)).length = n + 1 := by
  induction n with
  | zero => rfl
  | succ n ih =>
    rw [nested, encode_list, List.flatMap_singleton, List.length_append, ih]
    exact Nat.add_comm 1 _

/-- A list in a list and so on, 401 of them, in a map. -/
def deepMap : Value := .map [(.text "a", nested 401)]

/-- A map may be written that cannot be read. -/
theorem deep_message_refused : deepMap.Portable ∧
    ∃ data, encodeMessage deepMap = .ok data ∧ decodeMessage data = .error .malformedMessage := by
  have hportable : deepMap.Portable := by
    have hname : (Value.text "a").Portable := .text (Text.isSurrogate_of_isAscii (by decide))
    refine .map (List.nodup_singleton _) ?_ ?_ ?_
    · exact List.forall_mem_singleton.mpr trivial
    · exact List.forall_mem_singleton.mpr hname
    · exact List.forall_mem_singleton.mpr (portable_nested 401)
  have hdepth : maxDepth < deepMap.depth := by
    rw [deepMap, depth, depthEntries, depthEntries, depth_nested]
    decide
  have hsize : ¬Frame.sizeLimit ≤ (Cbor.encode deepMap).length := by
    rw [deepMap, length_encode_map, List.flatMap_singleton, List.length_append, length_encode_nested]
    decide
  refine ⟨hportable, _, encodeMessage_of_portable hportable, ?_⟩
  calc decodeMessage (Frame.wrap (Cbor.encode deepMap))
      = if Frame.sizeLimit ≤ (Cbor.encode deepMap).length then .error .badFrame
        else if maxDepth < deepMap.depth then .error .malformedMessage
        else .ok (canonical deepMap) := decodeMessage_of_portable hportable
    _ = .error .malformedMessage := by rw [if_neg hsize, if_pos hdepth]

end Signatory.Wire
