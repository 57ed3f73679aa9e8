import Signatory.Proofs.Argument
import Signatory.Proofs.Transaction.Binding
import Signatory.Proofs.Wire.Message
import Signatory.Transaction.LooseEnvelope
import Signatory.Wire.Transaction

/-! Transactions over the wire. What a receiver makes of the message that carries a transaction is that transaction,
its arguments with their fields in order, so that every signature made before it was sent is one of it still. -/

namespace Signatory
set_option autoImplicit false
open Outcome
open Cbor (Value)
open Cbor.Value
open Wire

namespace Transaction

/-- The message that carries the transaction. -/
def sent (t : Transaction) : Except Error Bytes := do encodeMessage (mapOf [("transaction", ← t.toWire)])

end Transaction

def LooseTransaction.received (data : Bytes) : Except Error LooseTransaction := do
  ofWire (← required "transaction" (← decodeMessage data))

namespace Transaction

def signatureFields (e : (Bytes × Int) × Bytes) : List (Text × Value) :=
  [("address", .bytes e.1.1), ("key_index", .int e.1.2), ("signature", .bytes e.2)]

def keyFields (k : ProposalKey) : List (Text × Value) :=
  [("address", .bytes k.address), ("key_index", .int k.keyIndex), ("sequence_number", ofOptional .int k.sequenceNumber)]

def wireFields (t : Transaction) (arguments : List Bytes) : List (Text × Value) :=
  [("script", .bytes t.script), ("arguments", .list (arguments.map .bytes)),
    ("reference_block_id", ofOptional .bytes t.referenceBlock), ("gas_limit", ofOptional .int t.gasLimit),
    ("proposal_key", mapOf (keyFields t.proposalKey)), ("payer", .bytes t.payer),
    ("authorizers", .list (t.authorizers.map .bytes)), ("payload_signatures", signaturesToWire t.payloadSignatures),
    ("envelope_signatures", signaturesToWire t.envelopeSignatures)]

theorem named_signatureFields (e : (Bytes × Int) × Bytes) : Named ((signatureFields e).map Prod.fst) :=
  (⟨by decide, by decide⟩ : Named ["address", "key_index", "signature"])

theorem named_keyFields (k : ProposalKey) : Named ((keyFields k).map Prod.fst) :=
  (⟨by decide, by decide⟩ : Named ["address", "key_index", "sequence_number"])

theorem named_wireFields (t : Transaction) (arguments : List Bytes) : Named ((wireFields t arguments).map Prod.fst) :=
  (⟨by decide, by decide⟩ : Named ["script", "arguments", "reference_block_id", "gas_limit", "proposal_key", "payer",
    "authorizers", "payload_signatures", "envelope_signatures"])

theorem toWire_eq_ok {t : Transaction} {arguments : List Bytes} (h : t.arguments.mapM Argument.encode = .ok arguments) :
    t.toWire = .ok (mapOf (wireFields t arguments)) := by
  rw [toWire, h]
  rfl

theorem fits_ofOptional {α : Type} {item : α → Value} {n : Nat} (h : ∀ a, Fits n (item a)) (x : Option α) :
    Fits n (ofOptional item x) := by
  cases x with
  | none => exact fits_null
  | some a => exact h a

theorem fits_signatures (m : SignatureMap) : Fits 2 (signaturesToWire m) := by
  refine fits_list (List.forall_mem_map.mpr fun e _ => fits_mapOf (named_signatureFields e) ?_)
  simp only [List.forall_mem_cons]
  exact ⟨fits_bytes _, fits_int _, fits_bytes _, by simp⟩

theorem fits_wireFields (t : Transaction) (arguments : List Bytes) : Fits 3 (mapOf (wireFields t arguments)) := by
  have hkey : Fits 2 (mapOf (keyFields t.proposalKey)) := by
    refine fits_mapOf (named_keyFields t.proposalKey) ?_
    simp only [keyFields, List.forall_mem_cons]
    exact ⟨fits_bytes _, fits_int _, fits_ofOptional fits_int _, by simp⟩
  refine fits_mapOf (named_wireFields t arguments) ?_
  simp only [wireFields, List.forall_mem_cons]
  exact ⟨fits_bytes _, fits_bytesList _ 1, fits_ofOptional fits_bytes _, fits_ofOptional fits_int _, hkey, fits_bytes _,
    fits_bytesList _ 1, fits_signatures _, fits_signatures _, by simp⟩

theorem canonical_ofOptional {α : Type} {item : α → Value} (h : ∀ a, (item a).canonical = item a) (x : Option α) :
    (ofOptional item x).canonical = ofOptional item x := by
  cases x with
  | none => rfl
  | some a => exact h a

theorem signatureOfWire_canonical (e : (Bytes × Int) × Bytes) :
    LooseTransaction.signatureOfWire (mapOf (signatureFields e)).canonical = .ok ((.bytes e.1.1, e.1.2), .bytes e.2) := by
  have hnames := named_signatureFields e
  have haddress := required_mapOf hnames "address" (.bytes e.1.1) (by simp [signatureFields])
  have hindex := required_mapOf hnames "key_index" (.int e.1.2) (by simp [signatureFields])
  have hsignature := required_mapOf hnames "signature" (.bytes e.2) (by simp [signatureFields])
  unfold LooseTransaction.signatureOfWire
  rw [haddress, hindex, hsignature]
  rfl

theorem collect_loosenSignatures (m : SignatureMap) : Entries.collect (loosenSignatures m) = loosenSignatures m := by
  apply Entries.collect_of_pairwise
  have hnodup := m.nodup
  rw [Entries.keys, List.nodup_iff_pairwise_ne, List.pairwise_map] at hnodup
  rw [loosenSignatures, List.pairwise_map]
  refine hnodup.imp fun {e f} hne => ?_
  have hkey : (((.bytes e.1.1, e.1.2) : Value × Int) == (.bytes f.1.1, f.1.2)) = (e.1 == f.1) := rfl
  rw [hkey]
  exact beq_false_of_ne hne

theorem signaturesOfWire_canonical (m : SignatureMap) :
    LooseTransaction.signaturesOfWire (signaturesToWire m).canonical = .ok (loosenSignatures m) := by
  have hitems : (m.entries.map fun e => (mapOf (signatureFields e)).canonical).mapM LooseTransaction.signatureOfWire =
      .ok (loosenSignatures m) := by
    rw [mapM_eq_ok, loosenSignatures, List.forall₂_map_left_iff, List.forall₂_map_right_iff, List.forall₂_same]
    exact fun e _ => signatureOfWire_canonical e
  have hlist : (signaturesToWire m).canonical = .list (m.entries.map fun e => (mapOf (signatureFields e)).canonical) := by
    rw [signaturesToWire, canonical_list, List.map_map]
    rfl
  unfold LooseTransaction.signaturesOfWire
  rw [hlist]
  simp only [toItems, bind, Except.bind, hitems, collect_loosenSignatures]
  rfl

/-- The transaction with its arguments in canonical form. -/
def inOrder (t : Transaction) : Transaction := { t with arguments := t.arguments.map Json.canonical }

theorem argumentsOfWire {vs : List Json} (hportable : ∀ v ∈ vs, v.Portable) {arguments : List Bytes}
    (h : vs.mapM Argument.encode = .ok arguments) :
    (arguments.map Value.bytes).mapM LooseTransaction.argumentOfWire = .ok (vs.map Json.canonical) := by
  rw [mapM_eq_ok] at h ⊢
  rw [List.forall₂_map_left_iff, List.forall₂_map_right_iff]
  induction h with
  | nil => exact .nil
  | cons hv _ ih =>
    rw [List.forall_mem_cons] at hportable
    exact .cons (Argument.decode_of_encode hportable.1 hv) (ih hportable.2)

theorem ofWire_canonical {t : Transaction} (hportable : ∀ v ∈ t.arguments, v.Portable) {arguments : List Bytes}
    (h : t.arguments.mapM Argument.encode = .ok arguments) :
    LooseTransaction.ofWire (mapOf (wireFields t arguments)).canonical = .ok t.inOrder.loosen := by
  have hnames := named_wireFields t arguments
  have hkeyNames := named_keyFields t.proposalKey
  have hkey := required_mapOf hnames "proposal_key" (mapOf (keyFields t.proposalKey)) (by simp [wireFields])
  have hscript := required_mapOf hnames "script" (.bytes t.script) (by simp [wireFields])
  have harguments := optional_mapOf hnames "arguments" (.list (arguments.map .bytes)) (by simp [wireFields])
    (.list [])
  have hpayer := required_mapOf hnames "payer" (.bytes t.payer) (by simp [wireFields])
  have hauthorizers := optional_mapOf hnames "authorizers" (.list (t.authorizers.map .bytes))
    (by simp [wireFields]) (.list [])
  have hproposer := required_mapOf hkeyNames "address" (.bytes t.proposalKey.address) (by simp [keyFields])
  have hindex := required_mapOf hkeyNames "key_index" (.int t.proposalKey.keyIndex) (by simp [keyFields])
  have hsequence := optional_mapOf hkeyNames "sequence_number"
    (ofOptional .int t.proposalKey.sequenceNumber) (by simp [keyFields]) .null
  have hgas := optional_mapOf hnames "gas_limit" (ofOptional .int t.gasLimit) (by simp [wireFields]) .null
  have hreference := optional_mapOf hnames "reference_block_id" (ofOptional .bytes t.referenceBlock)
    (by simp [wireFields]) .null
  have hpayload := optional_mapOf hnames "payload_signatures" (signaturesToWire t.payloadSignatures)
    (by simp [wireFields]) (.list [])
  have henvelope := optional_mapOf hnames "envelope_signatures" (signaturesToWire t.envelopeSignatures)
    (by simp [wireFields]) (.list [])
  rw [canonical_bytesList] at harguments hauthorizers
  rw [canonical_ofOptional (fun _ => rfl)] at hsequence hgas hreference
  unfold LooseTransaction.ofWire
  simp only [hkey, hscript, harguments, hpayer, hauthorizers, hproposer, hindex, hsequence, hgas, hreference, hpayload,
    henvelope, bind, Except.bind, toItems, argumentsOfWire hportable h, signaturesOfWire_canonical]
  rfl

def messageFields (t : Transaction) (arguments : List Bytes) : List (Text × Value) :=
  [("transaction", mapOf (wireFields t arguments))]

theorem named_messageFields (t : Transaction) (arguments : List Bytes) :
    Named ((messageFields t arguments).map Prod.fst) :=
  (⟨by decide, by decide⟩ : Named ["transaction"])

theorem fits_messageFields (t : Transaction) (arguments : List Bytes) : Fits 4 (mapOf (messageFields t arguments)) :=
  fits_mapOf (named_messageFields t arguments) (List.forall_mem_singleton.mpr (fits_wireFields t arguments))

theorem sent_eq_ok {t : Transaction} {arguments : List Bytes} (h : t.arguments.mapM Argument.encode = .ok arguments) :
    t.sent = .ok (Frame.wrap (Cbor.encode (mapOf (messageFields t arguments)))) := by
  rw [sent, toWire_eq_ok h]
  exact encodeMessage_of_portable (fits_messageFields t arguments).portable

theorem received_sent {t : Transaction} (htyped : ∀ v ∈ t.arguments, ∃ b, Argument.encode v = .ok b)
    (hportable : ∀ v ∈ t.arguments, v.Portable) :
    ∃ data, t.sent = .ok data ∧
      (data.length < Frame.sizeLimit → LooseTransaction.received data = .ok t.inOrder.loosen) := by
  obtain ⟨arguments, harguments⟩ := exists_mapM_eq_ok htyped
  have hfits := fits_messageFields t arguments
  refine ⟨_, sent_eq_ok harguments, ?_⟩
  intro hsize
  have hread : decodeMessage (Frame.wrap (Cbor.encode (mapOf (messageFields t arguments)))) =
      .ok (mapOf (messageFields t arguments)).canonical :=
    decodeMessage_encodeMessage (hfits.mono (by decide)) (encodeMessage_of_portable hfits.portable) hsize
  have hfield : required "transaction" (mapOf (messageFields t arguments)).canonical =
      .ok (mapOf (wireFields t arguments)).canonical :=
    required_mapOf (named_messageFields t arguments) _ _ List.mem_cons_self
  unfold LooseTransaction.received
  rw [hread]
  exact (congrArg (· >>= LooseTransaction.ofWire) hfield).trans (ofWire_canonical hportable harguments)

theorem payloadItem_inOrder {t : Transaction} (h : ∀ v ∈ t.arguments, v.Portable) :
    t.inOrder.payloadItem = t.payloadItem := by
  have harguments := Argument.mapM_encode_canonical h
  unfold payloadItem
  simp only [inOrder, harguments]
  rfl

theorem messages_inOrder {t : Transaction} (h : ∀ v ∈ t.arguments, v.Portable) :
    t.inOrder.payloadMessage = t.payloadMessage ∧ t.inOrder.envelopeMessage = t.envelopeMessage ∧
      t.inOrder.idPreimage = t.idPreimage := by
  have hitem := payloadItem_inOrder h
  unfold payloadMessage envelopeMessage idPreimage
  rw [hitem]
  exact ⟨rfl, rfl, rfl⟩

end Transaction

/-- Every envelope can be sent, and one that is received is the same but for its roles, and but for the order of fields in
its arguments; what was signed of it is signed of it still. Any is received that a frame has room for: `Frame.sizeLimit`
is the limit of messages in the format of frames, protocol buffers. -/
theorem Envelope.wire_round_trip (e : Envelope) (htyped : ∀ v ∈ e.arguments, ∃ b, Argument.encode v = .ok b)
    (hportable : ∀ v ∈ e.arguments, v.Portable) :
    ∃ data, e.toTransaction.sent = .ok data ∧ (data.length < Frame.sizeLimit →
      ∃ t arguments, LooseTransaction.received data = .ok t ∧ List.Forall₂ Json.Reordered e.arguments arguments ∧
        LooseEnvelope.mk t none = Envelope.loosen { e with arguments, roles := none } ∧
        LooseEnvelope.regular? ⟨t, none⟩ = some { e with arguments, roles := none } ∧
        t.payloadMessage = e.payloadMessage ∧ t.envelopeMessage = e.envelopeMessage ∧
        (∀ suite, t.id suite = e.id suite) ∧
        (e.isPrepared = true → ∃ payload envelope preimage, e.payloadMessage = .ok payload ∧
          e.envelopeMessage = .ok envelope ∧ e.idPreimage = .ok preimage)) := by
  obtain ⟨data, hdata, hreceived⟩ := Transaction.received_sent htyped hportable
  obtain ⟨hpayload, henvelope, hpreimage⟩ := Transaction.messages_inOrder hportable
  refine ⟨data, hdata, ?_⟩
  intro hsize
  refine ⟨_, e.arguments.map Json.canonical, hreceived hsize, ?_, rfl, ?_, ?_, ?_, ?_, ?_⟩
  · rw [List.forall₂_map_right_iff, List.forall₂_same]
    exact fun v _ => Json.reordered_canonical v
  · rw [LooseEnvelope.regular?, Transaction.regular?_loosen]
    rfl
  · rw [Transaction.payloadMessage_loosen, hpayload]
  · rw [Transaction.envelopeMessage_loosen, henvelope]
  · intro suite
    rw [Transaction.id_loosen, Transaction.id, Transaction.id, hpreimage]
  · intro hprepared
    obtain ⟨v, _, hitem⟩ := Transaction.Ready.exists_payloadItem ⟨hprepared, htyped⟩
    exact ⟨_, _, _, Transaction.payloadMessage_eq hitem, Transaction.envelopeMessage_eq hitem,
      Transaction.idPreimage_eq hitem⟩

/-- A value on which little is plain: an integer beyond 64 bits, doubles, halves of pairs, and fields out of order. -/
def ladenValue : Json :=
  .object [("value", .list [.int (2 ^ 70), .float (.ofBits 0x3FB999999999999A), .float .nan,
    .text [Json.lowHalf (.ofChar '😀'), Json.highHalf (.ofChar '😀'), .ofChar '😀'],
    .object [("b", .null), ("a", .bool true)]]), ("type", .text "Array")]

theorem portable_ladenValue : ladenValue.Portable := by
  have htenth : Json.scalar? (Json.renderFloat (.ofBits 0x3FB999999999999A)) =
      some (.float (.ofBits 0x3FB999999999999A), []) := by
    have htext : Json.renderFloat (.ofBits 0x3FB999999999999A) = ("0.1" : Text) := by decide +kernel
    have hread : Binary64.ofScanned false ([0], [1], 0) = .ofBits 0x3FB999999999999A := by decide +kernel
    rw [htext, ← hread]
    rfl
  have hhalves : Json.Unpaired [Json.lowHalf (.ofChar '😀'), Json.highHalf (.ofChar '😀'), .ofChar '😀'] := by
    simp [Json.Unpaired]
    decide
  have hflags : Json.Portable (.object [("b", .null), ("a", .bool true)]) := by
    refine .object (by decide) ?_ ?_
    · exact List.forall_mem_cons.mpr ⟨Json.unpaired_of_isAscii rfl, List.forall_mem_singleton.mpr (Json.unpaired_of_isAscii rfl)⟩
    · exact List.forall_mem_cons.mpr ⟨.null, List.forall_mem_singleton.mpr (.bool true)⟩
  have hitems : Json.Portable (.list [.int (2 ^ 70), .float (.ofBits 0x3FB999999999999A), .float .nan,
      .text [Json.lowHalf (.ofChar '😀'), Json.highHalf (.ofChar '😀'), .ofChar '😀'],
      .object [("b", .null), ("a", .bool true)]]) := by
    refine .list ?_
    simp only [List.forall_mem_cons]
    exact ⟨.int (by decide +kernel), .float htenth, .float rfl, .text hhalves, hflags, nofun⟩
  refine .object (by decide) ?_ ?_
  · exact List.forall_mem_cons.mpr ⟨Json.unpaired_of_isAscii rfl, List.forall_mem_singleton.mpr (Json.unpaired_of_isAscii rfl)⟩
  · exact List.forall_mem_cons.mpr ⟨hitems, List.forall_mem_singleton.mpr (.text (Json.unpaired_of_isAscii rfl))⟩

/-- An envelope with such an argument, with numbers of more than 64 bits, and with signatures out of order. -/
def laden : Envelope where
  script := [0x00, 0xFF]
  arguments := [ladenValue]
  payer := [2]
  authorizers := [[1], [2], [1]]
  proposalKey := ⟨[1], -1, some (2 ^ 64)⟩
  gasLimit := some (-2 ^ 65)
  referenceBlock := some [7]
  payloadSignatures := ⟨[(([2], 70000), [0xBB]), (([1], 0), [0xAA])], by decide⟩
  envelopeSignatures := ⟨[(([2], 0), [0xCC]), (([1], 3), [0xDD])], by decide⟩
  roles := some ⟨none, none, []⟩

theorem length_ladenValue : (Cbor.encode (.bytes (Text.Utf8.encode ladenValue.render))).length = 106 := by
  have hfields (v w : Json) : [(("value" : Text), v), (("type" : Text), w)].mergeSort Json.fieldLe =
      [(("type" : Text), w), (("value" : Text), v)] := by
    rw [Lists.mergeSort_pair]
    rfl
  have hflags (v w : Json) : [(("b" : Text), v), (("a" : Text), w)].mergeSort Json.fieldLe =
      [(("a" : Text), w), (("b" : Text), v)] := by
    rw [Lists.mergeSort_pair]
    rfl
  rw [ladenValue, Json.render_object, hfields]
  simp only [List.map_cons, List.map_nil, Json.renderField, Json.render_list, Json.render_object, hflags]
  decide +kernel

theorem length_sent_laden {data : Bytes} (h : laden.toTransaction.sent = .ok data) : data.length < Frame.sizeLimit := by
  have harguments : laden.arguments.mapM Argument.encode = .ok [Text.Utf8.encode ladenValue.render] := rfl
  have hvalue := length_ladenValue
  rw [Transaction.sent_eq_ok harguments] at h
  obtain rfl := Except.ok.inj h
  generalize Text.Utf8.encode ladenValue.render = b at hvalue
  have hlength : (Cbor.encode (mapOf (Transaction.messageFields laden.toTransaction [b]))).length = 453 := by
    simp only [Transaction.messageFields, mapOf, Transaction.wireFields, Transaction.signaturesToWire,
      Transaction.keyFields, laden, List.map_cons, List.map_nil, Cbor.length_encode_map, Cbor.encode_list,
      List.flatMap_cons, List.flatMap_nil, List.length_append, List.length_cons, List.length_nil, hvalue]
    decide +kernel
  have hwrap := Frame.length_wrap_le (Cbor.encode (mapOf (Transaction.messageFields laden.toTransaction [b])))
    (by rw [hlength]; decide)
  rw [hlength] at hwrap
  exact Nat.lt_of_le_of_lt hwrap (by decide)

theorem Envelope.wire_round_trip_laden :
    (∀ v ∈ laden.arguments, (∃ b, Argument.encode v = .ok b) ∧ v.Portable) ∧
    ∃ data t arguments, laden.toTransaction.sent = .ok data ∧ LooseTransaction.received data = .ok t ∧
      List.Forall₂ Json.Reordered laden.arguments arguments ∧
      LooseEnvelope.regular? ⟨t, none⟩ = some { laden with arguments, roles := none } ∧
      t.payloadMessage = laden.payloadMessage ∧ t.envelopeMessage = laden.envelopeMessage ∧
      (∀ suite, t.id suite = laden.id suite) ∧ ∃ payload, laden.payloadMessage = .ok payload := by
  have htyped : ∀ v ∈ laden.arguments, ∃ b, Argument.encode v = .ok b := List.forall_mem_singleton.mpr ⟨_, rfl⟩
  have hportable : ∀ v ∈ laden.arguments, v.Portable := List.forall_mem_singleton.mpr portable_ladenValue
  obtain ⟨data, hsent, hreceived⟩ := Envelope.wire_round_trip laden htyped hportable
  obtain ⟨t, arguments, hreceived, hreordered, _, hregular, hpayload, henvelope, hid, hprepared⟩ :=
    hreceived (length_sent_laden hsent)
  obtain ⟨payload, _, _, hmessage, _⟩ := hprepared rfl
  exact ⟨fun v hv => ⟨htyped v hv, hportable v hv⟩, data, t, arguments, hsent, hreceived, hreordered, hregular, hpayload,
    henvelope, hid, payload, hmessage⟩

end Signatory
