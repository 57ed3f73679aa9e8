import Signatory.Proofs.Cbor.PrefixFree
import Signatory.Proofs.Json.Canonical
import Signatory.Proofs.Lists
import Signatory.Proofs.Outcome
import Signatory.Proofs.Transaction.Loosening
import Signatory.Transaction.Basic

/-! What a signature is bound to. A message tells the body of the transaction that it is the message of, and the
message of the payer tells the payload signatures as well; no message of one kind is one of the other. -/

namespace Signatory.Transaction
set_option autoImplicit false
open Cbor (Value)
open Cbor.Value (isPlain arePlain)

/-- What a transaction must have in order to be signed: its network fields, and typed values for arguments. -/
structure Ready (t : Transaction) : Prop where
  prepared : t.isPrepared = true
  arguments : ∀ v ∈ t.arguments, ∃ b, Argument.encode v = .ok b

/-- Agreement in all that a payload signature covers. -/
structure SameBody (t u : Transaction) : Prop where
  script : t.script = u.script
  arguments : t.arguments.mapM Argument.encode = u.arguments.mapM Argument.encode
  referenceBlock : t.referenceBlock = u.referenceBlock
  gasLimit : t.gasLimit = u.gasLimit
  proposalKey : t.proposalKey = u.proposalKey
  payer : t.payer = u.payer
  authorizers : t.authorizers = u.authorizers

def bodyItem (t : Transaction) (arguments : List Bytes) (reference : Bytes) (gas sequence : Int) : Value :=
  .list [.bytes t.script, .list (arguments.map .bytes), .bytes reference, .int gas, .bytes t.proposalKey.address,
    .int t.proposalKey.keyIndex, .int sequence, .bytes t.payer, .list (t.authorizers.map .bytes)]

theorem Ready.payloadItem {t : Transaction} (h : t.Ready) :
    ∃ arguments reference gas sequence,
      t.arguments.mapM Argument.encode = .ok arguments ∧ t.referenceBlock = some reference ∧
      t.gasLimit = some gas ∧ t.proposalKey.sequenceNumber = some sequence ∧
      t.payloadItem = .ok (t.bodyItem arguments reference gas sequence) := by
  obtain ⟨arguments, harguments⟩ := Outcome.exists_mapM_eq_ok h.arguments
  obtain ⟨⟨reference, gas, sequence⟩, hnetwork⟩ := Option.isSome_iff_exists.mp h.prepared
  obtain ⟨hreference, hgas, hsequence⟩ := network?_eq_some.mp hnetwork
  refine ⟨arguments, reference, gas, sequence, harguments, hreference, hgas, hsequence, ?_⟩
  simp only [Transaction.payloadItem, hnetwork, harguments]
  rfl

theorem bodyItem_isPlain (t : Transaction) (arguments : List Bytes) (reference : Bytes) (gas sequence : Int) :
    (t.bodyItem arguments reference gas sequence).isPlain = true := by
  simp [bodyItem, isPlain, arePlain, Cbor.arePlain_map_bytes]

theorem signatureItem_isPlain (m : SignatureMap) : (signatureItem m).isPlain = true := by
  unfold signatureItem
  simp only [isPlain]
  induction m.entries with
  | nil => rfl
  | cons e es ih => simp [arePlain, isPlain, ih]

theorem signatureItem_injective {m m' : SignatureMap} (h : signatureItem m = signatureItem m') : m = m' := by
  simp only [signatureItem, Value.list.injEq] at h
  refine OrderedMap.ext ((List.map_inj_right ?_).mp h)
  rintro ⟨⟨a, i⟩, s⟩ ⟨⟨b, j⟩, r⟩ he
  simpa [and_assoc] using he

/-- The item of a body tells the body. -/
theorem payloadItem_eq_iff {t u : Transaction} (ht : t.Ready) (hu : u.Ready) :
    t.payloadItem = u.payloadItem ↔ SameBody t u := by
  obtain ⟨as, r, g, s, has, hr, hg, hs, hitem⟩ := ht.payloadItem
  obtain ⟨as', r', g', s', has', hr', hg', hs', hitem'⟩ := hu.payloadItem
  rw [hitem, hitem']
  constructor
  · intro h
    simp only [Except.ok.injEq, bodyItem, Value.list.injEq, List.cons.injEq, Value.bytes.injEq, Value.int.injEq,
      and_true] at h
    obtain ⟨hscript, hargs, rfl, rfl, haddress, hindex, rfl, hpayer, hauthorizers⟩ := h
    have hbytes : ∀ a b : Bytes, Value.bytes a = Value.bytes b → a = b := fun _ _ => Value.bytes.inj
    obtain rfl := (List.map_inj_right hbytes).mp hargs
    have hkey : t.proposalKey = u.proposalKey := by
      cases hkt : t.proposalKey
      cases hku : u.proposalKey
      simp_all
    exact ⟨hscript, has.trans has'.symm, hr.trans hr'.symm, hg.trans hg'.symm, hkey, hpayer,
      (List.map_inj_right hbytes).mp hauthorizers⟩
  · intro h
    have harguments := h.arguments
    have hreference := h.referenceBlock
    have hgas := h.gasLimit
    have hsequence := congrArg ProposalKey.sequenceNumber h.proposalKey
    rw [has, has', Except.ok.injEq] at harguments
    rw [hr, hr', Option.some.injEq] at hreference
    rw [hg, hg', Option.some.injEq] at hgas
    rw [hs, hs', Option.some.injEq] at hsequence
    simp only [bodyItem, h.script, harguments, hreference, hgas, h.proposalKey, hsequence, h.payer, h.authorizers]

/-- A body followed by maps of signatures tells all of them. -/
theorem encode_signed_inj {v w : Value} {m n : List SignatureMap} (hv : v.isPlain) (hw : w.isPlain)
    (h : Cbor.encode (.list (v :: m.map signatureItem)) = Cbor.encode (.list (w :: n.map signatureItem))) :
    v = w ∧ m = n := by
  have hplain : ∀ m : List SignatureMap, arePlain (m.map signatureItem) = true := by
    intro m
    induction m with
    | nil => rfl
    | cons s m ih => simp [arePlain, signatureItem_isPlain, ih]
  have hlist := Cbor.encode_inj (by simp [isPlain, arePlain, hv, hplain]) (by simp [isPlain, arePlain, hw, hplain]) h
  simp only [Value.list.injEq, List.cons.injEq] at hlist
  exact ⟨hlist.1, (List.map_inj_right fun _ _ => signatureItem_injective).mp hlist.2⟩

theorem payloadMessage_eq {t : Transaction} {v : Value} (h : t.payloadItem = .ok v) :
    t.payloadMessage = .ok (domainTag ++ Cbor.encode v) := by
  simp only [payloadMessage, h]
  rfl

theorem envelopeMessage_eq {t : Transaction} {v : Value} (h : t.payloadItem = .ok v) :
    t.envelopeMessage = .ok (domainTag ++ Cbor.encode (.list [v, signatureItem t.payloadSignatures])) := by
  simp only [envelopeMessage, h]
  rfl

theorem idPreimage_eq {t : Transaction} {v : Value} (h : t.payloadItem = .ok v) :
    t.idPreimage = .ok (Cbor.encode
      (.list [v, signatureItem t.payloadSignatures, signatureItem t.envelopeSignatures])) := by
  simp only [idPreimage, h]
  rfl

theorem Ready.exists_payloadItem {t : Transaction} (ht : t.Ready) : ∃ v, v.isPlain = true ∧ t.payloadItem = .ok v := by
  obtain ⟨as, r, g, s, _, _, _, _, hitem⟩ := ht.payloadItem
  exact ⟨_, bodyItem_isPlain t as r g s, hitem⟩

theorem payloadMessage_eq_iff {t u : Transaction} (ht : t.Ready) (hu : u.Ready) :
    t.payloadMessage = u.payloadMessage ↔ SameBody t u := by
  obtain ⟨v, hv, htv⟩ := ht.exists_payloadItem
  obtain ⟨w, hw, huw⟩ := hu.exists_payloadItem
  rw [← payloadItem_eq_iff ht hu, payloadMessage_eq htv, payloadMessage_eq huw, htv, huw]
  simp only [Except.ok.injEq, List.append_cancel_left_eq]
  exact ⟨Cbor.encode_inj hv hw, congrArg Cbor.encode⟩

theorem envelopeMessage_eq_iff {t u : Transaction} (ht : t.Ready) (hu : u.Ready) :
    t.envelopeMessage = u.envelopeMessage ↔ SameBody t u ∧ t.payloadSignatures = u.payloadSignatures := by
  obtain ⟨v, hv, htv⟩ := ht.exists_payloadItem
  obtain ⟨w, hw, huw⟩ := hu.exists_payloadItem
  rw [← payloadItem_eq_iff ht hu, envelopeMessage_eq htv, envelopeMessage_eq huw, htv, huw]
  simp only [Except.ok.injEq, List.append_cancel_left_eq]
  constructor
  · intro h
    obtain ⟨hitem, hmaps⟩ := encode_signed_inj (m := [_]) (n := [_]) hv hw h
    exact ⟨hitem, List.head_eq_of_cons_eq hmaps⟩
  · rintro ⟨rfl, h⟩
    rw [h]

theorem idPreimage_eq_iff {t u : Transaction} (ht : t.Ready) (hu : u.Ready) :
    t.idPreimage = u.idPreimage ↔ SameBody t u ∧ t.payloadSignatures = u.payloadSignatures ∧
      t.envelopeSignatures = u.envelopeSignatures := by
  obtain ⟨v, hv, htv⟩ := ht.exists_payloadItem
  obtain ⟨w, hw, huw⟩ := hu.exists_payloadItem
  rw [← payloadItem_eq_iff ht hu, idPreimage_eq htv, idPreimage_eq huw, htv, huw]
  simp only [Except.ok.injEq]
  constructor
  · intro h
    obtain ⟨hitem, hmaps⟩ := encode_signed_inj (m := [_, _]) (n := [_, _]) hv hw h
    simp only [List.cons.injEq, and_true] at hmaps
    exact ⟨hitem, hmaps⟩
  · rintro ⟨rfl, hp, he⟩
    rw [hp, he]

/-- A body has more parts than a body with its signatures. -/
theorem payloadMessage_ne_envelopeMessage {t u : Transaction} (ht : t.Ready) (hu : u.Ready) :
    t.payloadMessage ≠ u.envelopeMessage := by
  obtain ⟨as, r, g, s, _, _, _, _, hitem⟩ := ht.payloadItem
  obtain ⟨w, hw, huw⟩ := hu.exists_payloadItem
  rw [payloadMessage_eq hitem, envelopeMessage_eq huw]
  intro h
  simp only [Except.ok.injEq, List.append_cancel_left_eq] at h
  have hlist := Cbor.encode_inj (bodyItem_isPlain t as r g s)
    (by simp [isPlain, arePlain, hw, signatureItem_isPlain]) h
  simp [bodyItem] at hlist

/-- One message or one identifier means one body, one list of payload signatures and one of envelope signatures, as
far as the message or the identifier covers them. -/
theorem signed_messages_binding {t u : Transaction} (ht : t.Ready) (hu : u.Ready) :
    (t.payloadMessage = u.payloadMessage → SameBody t u) ∧
    (t.envelopeMessage = u.envelopeMessage →
      SameBody t u ∧ t.payloadSignatures.entries = u.payloadSignatures.entries) ∧
    t.payloadMessage ≠ u.envelopeMessage ∧
    ∀ suite : CryptoSuite, suite.CollisionFree (fun p => t.idPreimage = .ok p ∨ u.idPreimage = .ok p) →
      t.id suite = u.id suite →
        SameBody t u ∧ t.payloadSignatures.entries = u.payloadSignatures.entries ∧
          t.envelopeSignatures.entries = u.envelopeSignatures.entries := by
  refine ⟨(payloadMessage_eq_iff ht hu).mp, ?_, payloadMessage_ne_envelopeMessage ht hu, ?_⟩
  · intro h
    obtain ⟨hbody, hsignatures⟩ := (envelopeMessage_eq_iff ht hu).mp h
    exact ⟨hbody, congrArg OrderedMap.entries hsignatures⟩
  · intro suite hfree hid
    obtain ⟨v, _, htv⟩ := ht.exists_payloadItem
    obtain ⟨w, _, huw⟩ := hu.exists_payloadItem
    have hpreimage : t.idPreimage = u.idPreimage := by
      simp only [id, idPreimage_eq htv, idPreimage_eq huw, Except.map, Except.ok.injEq] at hid ⊢
      exact hfree _ _ (.inl (idPreimage_eq htv)) (.inr (idPreimage_eq huw)) hid
    obtain ⟨hbody, hpayload, henvelope⟩ := (idPreimage_eq_iff ht hu).mp hpreimage
    exact ⟨hbody, congrArg OrderedMap.entries hpayload, congrArg OrderedMap.entries henvelope⟩

def twiceSigned : Transaction where
  script := [0x74, 0x78]
  arguments := [.object [("type", .text "Int"), ("value", .text "1")]]
  payer := [2]
  authorizers := [[1], [2], [1]]
  proposalKey := ⟨[1], 0, some 0⟩
  gasLimit := some 9999
  referenceBlock := some [7]
  payloadSignatures := .ofList [(([1], 0), [0xAA]), (([2], 0), [0xBB])]
  envelopeSignatures := .ofList [(([2], 0), [0xCC])]

/-- The same, with the keys of the argument and the payload signatures in the opposite order. -/
def twiceSignedReversed : Transaction :=
  { twiceSigned with
    arguments := [.object [("value", .text "1"), ("type", .text "Int")]]
    payloadSignatures := twiceSigned.payloadSignatures.reverse }

/-- A suite in which bytes are their own digest. -/
def plainSuite : CryptoSuite := { CryptoSuite.standard with digest := fun b => b }

theorem signed_messages_binding_reversed :
    twiceSigned.Ready ∧ twiceSignedReversed.Ready ∧ SameBody twiceSigned twiceSignedReversed ∧
    twiceSigned.envelopeMessage ≠ twiceSignedReversed.envelopeMessage ∧
    twiceSigned.payloadMessage ≠ twiceSignedReversed.envelopeMessage ∧
    twiceSigned.id plainSuite ≠ twiceSignedReversed.id plainSuite := by
  have ht : twiceSigned.Ready := ⟨rfl, by
    intro v hv
    obtain rfl := List.mem_singleton.mp hv
    exact ⟨_, rfl⟩⟩
  have hu : twiceSignedReversed.Ready := ⟨rfl, by
    intro v hv
    obtain rfl := List.mem_singleton.mp hv
    exact ⟨_, rfl⟩⟩
  obtain ⟨hpayload, henvelope, hne, hid⟩ := signed_messages_binding ht hu
  have hother : twiceSigned.payloadSignatures.entries ≠ twiceSignedReversed.payloadSignatures.entries := by decide
  have hargument : twiceSigned.arguments.map Argument.encode = twiceSignedReversed.arguments.map Argument.encode := by
    simp only [twiceSigned, twiceSignedReversed, List.map_cons, List.map_nil, Argument.encode, Json.render_object,
      Lists.mergeSort_pair]
    rfl
  have hsame : twiceSigned.payloadMessage = twiceSignedReversed.payloadMessage := by
    simp only [twiceSigned, twiceSignedReversed, List.map_cons, List.map_nil, List.cons.injEq, and_true] at hargument
    simp only [payloadMessage, payloadItem, network?, twiceSigned, twiceSignedReversed, List.mapM_cons, hargument]
  refine ⟨ht, hu, hpayload hsame, fun h => hother (henvelope h).2, hne, fun h => ?_⟩
  exact hother (hid plainSuite (fun _ _ _ _ h => h) h).2.1

end Signatory.Transaction
