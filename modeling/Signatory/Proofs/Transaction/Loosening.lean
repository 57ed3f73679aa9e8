import Signatory.Proofs.OrderedMap
import Signatory.Proofs.Outcome
import Signatory.Transaction.Loose

/-! A transaction and the same with its fields taken for items: they have the same messages and one identifier. -/

namespace Signatory
set_option autoImplicit false
open Outcome
open Cbor (Value)

theorem Cbor.Value.areUnicode_eq_all (vs : List Value) : areUnicode vs = vs.all isUnicode := by
  induction vs with
  | nil => rfl
  | cons v vs ih => rw [areUnicode, List.all_cons, ih]

theorem Cbor.Value.areUnicode_map_bytes (bs : List Bytes) : areUnicode (bs.map .bytes) = true := by
  rw [areUnicode_eq_all, List.all_map, List.all_eq_true]
  intro b _
  rfl

namespace LooseTransaction

theorem written_eq_ok {v : Value} (h : v.isUnicode = true) : written v = .ok (Cbor.encode v) := by
  simp only [written, Cbor.encode?, h, if_true]
  rfl

/-- The bytes that the identifier digests. -/
def idPreimage (t : LooseTransaction) : Except Error Bytes := do
  written (.list [← t.payloadItem, signatureItem t.payloadSignatures, signatureItem t.envelopeSignatures])

theorem id_eq_map (suite : CryptoSuite) (t : LooseTransaction) : t.id suite = t.idPreimage.map suite.digest := by
  unfold LooseTransaction.id idPreimage
  cases t.payloadItem with
  | error error => rfl
  | ok item =>
    simp only [bind, Except.bind]
    cases written (.list [item, signatureItem t.payloadSignatures, signatureItem t.envelopeSignatures]) <;> rfl

theorem id_eq_ok {suite : CryptoSuite} {t : LooseTransaction} {id : Bytes} :
    t.id suite = .ok id ↔ ∃ p, t.idPreimage = .ok p ∧ suite.digest p = id := by
  rw [id_eq_map]
  cases t.idPreimage <;> simp [Except.map]

end LooseTransaction

namespace Transaction

theorem network?_eq_some {t : Transaction} {reference : Bytes} {gas sequence : Int} :
    t.network? = some (reference, gas, sequence) ↔ t.referenceBlock = some reference ∧ t.gasLimit = some gas ∧
      t.proposalKey.sequenceNumber = some sequence := by
  simp only [network?, Option.pure_def, Option.bind_eq_bind, Option.bind_eq_some_iff, Option.some.injEq, Prod.mk.injEq]
  constructor
  · rintro ⟨_, hreference, _, hgas, _, hsequence, rfl, rfl, rfl⟩
    exact ⟨hreference, hgas, hsequence⟩
  · rintro ⟨hreference, hgas, hsequence⟩
    exact ⟨_, hreference, _, hgas, _, hsequence, rfl, rfl, rfl⟩

theorem signatures?_loosen (m : SignatureMap) : LooseTransaction.signatures? (loosenSignatures m) = some m := by
  have hentries : (loosenSignatures m).mapM (m := Option) (fun e => do
      return ((← LooseTransaction.bytes? e.1.1, e.1.2), ← LooseTransaction.bytes? e.2)) = some m.entries := by
    unfold loosenSignatures
    induction m.entries with
    | nil => rfl
    | cons e es ih =>
      rw [List.map_cons, List.mapM_cons, ih]
      rfl
  unfold LooseTransaction.signatures?
  rw [hentries]
  exact congrArg some (OrderedMap.ofList_entries m)

theorem optional?_ofOptional {α : Type} (item : α → Value) (item? : Value → Option α)
    (h : ∀ a, item? (item a) = some a) (hnull : ∀ a, item a ≠ .null) (x : Option α) :
    LooseTransaction.optional? item? (ofOptional item x) = some x := by
  cases x with
  | none => rfl
  | some a =>
    have hitem : ofOptional item (some a) = item a := rfl
    rw [hitem]
    unfold LooseTransaction.optional?
    split
    · rename_i heq
      exact absurd heq (hnull a)
    · rw [h a]
      rfl

/-- No field is lost when fields are taken for items. -/
theorem regular?_loosen (t : Transaction) : t.loosen.regular? = some t := by
  have hauthorizers : (t.authorizers.map Value.bytes).mapM LooseTransaction.bytes? = some t.authorizers := by
    induction t.authorizers with
    | nil => rfl
    | cons a as ih =>
      rw [List.map_cons, List.mapM_cons, ih]
      rfl
  have hsequence := optional?_ofOptional .int LooseTransaction.int? (fun _ => rfl) (by simp) t.proposalKey.sequenceNumber
  have hgas := optional?_ofOptional .int LooseTransaction.int? (fun _ => rfl) (by simp) t.gasLimit
  have hreference := optional?_ofOptional .bytes LooseTransaction.bytes? (fun _ => rfl) (by simp) t.referenceBlock
  unfold LooseTransaction.regular? loosen
  simp only [LooseTransaction.bytes?, hauthorizers, hsequence, hgas, hreference, signatures?_loosen,
    Option.bind_eq_bind, Option.bind_some]
  rfl

theorem signatureItem_loosen (m : SignatureMap) :
    LooseTransaction.signatureItem (loosenSignatures m) = signatureItem m := by
  simp [LooseTransaction.signatureItem, loosenSignatures, signatureItem]

theorem isPrepared_loosen (t : Transaction) : t.loosen.isPrepared = t.isPrepared := by
  unfold LooseTransaction.isPrepared isPrepared network? loosen
  cases t.referenceBlock <;> cases t.gasLimit <;> cases t.proposalKey.sequenceNumber <;> rfl

theorem payloadItem_loosen (t : Transaction) : t.loosen.payloadItem = t.payloadItem := by
  unfold LooseTransaction.payloadItem payloadItem
  rw [isPrepared_loosen]
  cases hnetwork : t.network? with
  | none =>
    have hunprepared : t.isPrepared = false := by rw [isPrepared, hnetwork]; rfl
    rw [hunprepared]
    rfl
  | some network =>
    obtain ⟨reference, gas, sequence⟩ := network
    obtain ⟨hreference, hgas, hsequence⟩ := network?_eq_some.mp hnetwork
    have hprepared : t.isPrepared = true := by rw [isPrepared, hnetwork]; rfl
    rw [hprepared]
    simp only [loosen, ofOptional, hreference, hgas, hsequence]
    rfl

theorem payloadItem_isUnicode {t : Transaction} {v : Value} (h : t.payloadItem = .ok v) : v.isUnicode = true := by
  unfold payloadItem at h
  split at h
  · cases h
  · obtain ⟨arguments, _, hv⟩ := bind_eq_ok.mp h
    obtain rfl := pure_eq_ok.mp hv
    simp [Value.isUnicode, Value.areUnicode, Value.areUnicode_map_bytes]

theorem signatureItem_isUnicode (m : SignatureMap) : (signatureItem m).isUnicode = true := by
  rw [signatureItem, Value.isUnicode, Value.areUnicode_eq_all, List.all_map, List.all_eq_true]
  intro e _
  rfl

/-- What follows the item of the body in a message or an identifier makes no difference to whether it can be written. -/
theorem written_signed {t : Transaction} {v : Value} (h : t.payloadItem = .ok v) (maps : List SignatureMap) :
    LooseTransaction.written (.list (v :: maps.map signatureItem)) =
      .ok (Cbor.encode (.list (v :: maps.map signatureItem))) := by
  apply LooseTransaction.written_eq_ok
  rw [Value.isUnicode, Value.areUnicode_eq_all, List.all_cons, payloadItem_isUnicode h, List.all_map, Bool.true_and,
    List.all_eq_true]
  intro m _
  exact signatureItem_isUnicode m

theorem payloadMessage_loosen (t : Transaction) : t.loosen.payloadMessage = t.payloadMessage := by
  unfold LooseTransaction.payloadMessage payloadMessage
  rw [payloadItem_loosen]
  cases hitem : t.payloadItem with
  | error error => rfl
  | ok v =>
    have hwritten := LooseTransaction.written_eq_ok (payloadItem_isUnicode hitem)
    simp only [bind, Except.bind, hwritten]

theorem envelopeMessage_loosen (t : Transaction) : t.loosen.envelopeMessage = t.envelopeMessage := by
  have hsignatures : LooseTransaction.signatureItem t.loosen.payloadSignatures = signatureItem t.payloadSignatures :=
    signatureItem_loosen t.payloadSignatures
  unfold LooseTransaction.envelopeMessage envelopeMessage
  rw [payloadItem_loosen, hsignatures]
  cases hitem : t.payloadItem with
  | error error => rfl
  | ok v =>
    have hwritten := written_signed hitem [t.payloadSignatures]
    simp only [List.map_cons, List.map_nil] at hwritten
    simp only [bind, Except.bind, hwritten]

theorem idPreimage_loosen (t : Transaction) : t.loosen.idPreimage = t.idPreimage := by
  have hpayload : LooseTransaction.signatureItem t.loosen.payloadSignatures = signatureItem t.payloadSignatures :=
    signatureItem_loosen t.payloadSignatures
  have henvelope : LooseTransaction.signatureItem t.loosen.envelopeSignatures = signatureItem t.envelopeSignatures :=
    signatureItem_loosen t.envelopeSignatures
  unfold LooseTransaction.idPreimage idPreimage
  rw [payloadItem_loosen, hpayload, henvelope]
  cases hitem : t.payloadItem with
  | error error => rfl
  | ok v =>
    have hwritten := written_signed hitem [t.payloadSignatures, t.envelopeSignatures]
    simp only [List.map_cons, List.map_nil] at hwritten
    simp only [bind, Except.bind, hwritten]
    rfl

theorem id_eq_ok {suite : CryptoSuite} {t : Transaction} {id : Bytes} :
    t.id suite = .ok id ↔ ∃ p, t.idPreimage = .ok p ∧ suite.digest p = id := by
  unfold Transaction.id
  cases t.idPreimage <;> simp [Except.map]

theorem id_loosen (suite : CryptoSuite) (t : Transaction) : t.loosen.id suite = t.id suite := by
  rw [LooseTransaction.id_eq_map, idPreimage_loosen, Transaction.id]

end Transaction

end Signatory
