import Signatory.Proofs.Cbor.Cut
import Signatory.Proofs.Ledger.Replay
import Signatory.Proofs.Transaction.Binding

/-! A transaction with the current sequence number of its key is new: the identifiers of stored transactions digest other
numbers. -/

namespace Signatory
set_option autoImplicit false
open Outcome
open Cbor (Value)

namespace Ledger

/-- Stored transactions stand under their own identifiers. -/
def Named (suite : CryptoSuite) (l : Ledger) : Prop :=
  ∀ id t, l.transactions.find? id = some t → t.id suite = .ok id

/-- The bytes that the identifier of a stored transaction digests. -/
def DigestsTransaction (l : Ledger) (p : Bytes) : Prop := ∃ t ∈ l.transactions.values, t.idPreimage = .ok p

end Ledger

theorem LooseTransaction.idPreimage_eq_ok {t : LooseTransaction} {p : Bytes} (h : t.idPreimage = .ok p) :
    ∃ arguments : List Bytes, p = Cbor.encode (.list [.list [t.script, .list (arguments.map .bytes), t.referenceBlock,
      t.gasLimit, t.proposer, .int t.keyIndex, t.sequenceNumber, t.payer, .list t.authorizers],
      signatureItem t.payloadSignatures, signatureItem t.envelopeSignatures]) := by
  simp only [idPreimage, payloadItem, bind_eq_ok, check_eq_ok, pure_eq_ok] at h
  obtain ⟨_, ⟨_, arguments, _, rfl⟩, h⟩ := h
  refine ⟨arguments, ?_⟩
  unfold written Cbor.encode? at h
  split at h
  · exact (Except.ok.inj h).symm
  · cases h

/-- An item that is written as an integer, and is equal to an integer, is equal to no other. -/
theorem Cbor.eq_of_encode_int {i j : Int} {v : Value} (h : encode (.int i) = encode v)
    (halike : (.int j == v) = true) : i = j := by
  obtain ⟨n, hn, hj⟩ := Value.int_alike_iff.mp halike
  have hmajor := major_eq_of_encode (r := []) (s := []) (congrArg (· ++ []) h)
  cases v with
  | int k =>
    obtain rfl := (encodeInt_append_inj (r := []) (s := []) (congrArg (· ++ []) h)).1
    obtain rfl := Option.some.inj hn
    exact_mod_cast Option.some.inj ((BinaryValue.rat?_ofInt i).symm.trans hj)
  | bool b => cases i <;> simp only [Value.major] at hmajor <;> split at hmajor <;> omega
  | float x => cases i <;> simp only [Value.major] at hmajor <;> split at hmajor <;> omega
  | _ => cases hn

/-- The identifier tells proposer, key and sequence number, whatever the kinds of the other fields. -/
theorem Transaction.proposal_of_idPreimage_eq {t : Transaction} {u : LooseTransaction} {p : Bytes} (ht : t.Ready)
    (hp : t.idPreimage = .ok p) (hq : u.idPreimage = .ok p) :
    u.proposer = .bytes t.proposalKey.address ∧ u.keyIndex = t.proposalKey.keyIndex ∧
      ∃ n, t.proposalKey.sequenceNumber = some n ∧ Cbor.encode (.int n) = Cbor.encode u.sequenceNumber := by
  obtain ⟨as, r, g, n, _, _, _, hn, hitem⟩ := ht.payloadItem
  rw [idPreimage_eq hitem] at hp
  obtain ⟨bs, hpreimage⟩ := LooseTransaction.idPreimage_eq_ok hq
  rw [← Except.ok.inj hp] at hpreimage
  have hsigned := Cbor.encodeAll_eq_of_encode_list
    (by simp [Value.arePlain, bodyItem_isPlain, signatureItem_isPlain]) hpreimage
  simp only [Cbor.encodeAll, List.cons.injEq] at hsigned
  have hbody := Cbor.encodeAll_eq_of_encode_list
    (by simp [Value.arePlain, Value.isPlain, Cbor.arePlain_map_bytes]) hsigned.1
  simp only [Cbor.encodeAll, List.cons.injEq] at hbody
  obtain ⟨_, _, _, _, hproposer, hindex, hsequence, _⟩ := hbody
  have hproposer := (Cbor.bytes_cut (r := []) (s := []) (congrArg (· ++ []) hproposer)).1
  have hindex := (Cbor.encodeInt_append_inj (r := []) (s := []) (congrArg (· ++ []) hindex)).1
  exact ⟨hproposer, hindex.symm, n, hn, hsequence⟩

namespace Engine

variable {μ : Type} {E : Engine μ}

theorem Orderly.fresh {l : Ledger} (h : E.Orderly l) (hnamed : l.Named E.suite) {t : Transaction} (ht : t.Ready)
    {id : Bytes} (hid : t.id E.suite = .ok id) {n : Int} (hn : t.proposalKey.sequenceNumber = some n)
    (hcurrent : l.accounts.sequence? t.proposalKey.address t.proposalKey.keyIndex = some n)
    (hfree : E.suite.CollisionFree fun p => l.DigestsTransaction p ∨ t.idPreimage = .ok p) :
    id ∉ l.transactions.keys := by
  intro hold
  obtain ⟨u, hu⟩ := OrderedMap.mem_keys_iff.mp hold
  have hmem : u ∈ l.transactions.values := List.mem_map.mpr ⟨(id, u), OrderedMap.mem_entries_iff.mpr hu, rfl⟩
  obtain ⟨p, hp, hdigest⟩ := Transaction.id_eq_ok.mp hid
  obtain ⟨q, hq, hsame⟩ := LooseTransaction.id_eq_ok.mp (hnamed id u hu)
  obtain rfl := hfree q p (.inl ⟨u, hmem, hq⟩) (.inr hp) (hsame.trans hdigest.symm)
  obtain ⟨hproposer, hindex, m, hm, hsequence⟩ := Transaction.proposal_of_idPreimage_eq ht hp hq
  obtain rfl : n = m := Option.some.inj (hn.symm.trans hm)
  -- The stored transaction is one of those of the key, which bear smaller numbers.
  obtain ⟨ns, hall, _, hcurrents⟩ := h.numbers t.proposalKey.address t.proposalKey.keyIndex
  obtain ⟨current, rfl, hlt, _⟩ := hcurrents n hcurrent
  have hproposed : u ∈ l.transactions.values.filter (·.proposedBy t.proposalKey.address t.proposalKey.keyIndex) :=
    List.mem_filter.mpr ⟨hmem, LooseTransaction.proposedBy_iff.mpr ⟨hproposer, hindex⟩⟩
  obtain ⟨k, hk, hbears⟩ := Lists.exists_of_mem_right hall.flip hproposed
  have hsmaller := hlt k hk
  have hequal := Cbor.eq_of_encode_int hsequence hbears
  omega

end Engine

end Signatory
