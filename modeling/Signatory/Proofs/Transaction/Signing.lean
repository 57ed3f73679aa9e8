import Mathlib.Data.List.Find
import Mathlib.Logic.Function.Basic
import Signatory.Proofs.OrderedMap
import Signatory.Proofs.Transaction.Loosening
import Signatory.Proofs.Transaction.Requirements
import Signatory.Transaction.Signing

/-! Signing, end to end: which signatures a paper has after it, whose they are and what they cover, and what is left
when it fails. -/

namespace Signatory
set_option autoImplicit false
open Outcome

/-- The signer of an account's default key answers a message with a signature. -/
def Account.Signs (a : Account) (message signature : Bytes) : Prop :=
  ∃ key, a.defaultKey = .ok key ∧ key.signer.sign message = .ok signature

namespace Signable

/-- A paper keeps its signatures apart from all else: its payload message covers none of them, its envelope message
those of the payload only. -/
class Lawful (ε : Type) [Signable ε] where
  /-- The paper with the given signatures in place of its own. -/
  replace : ε → (SignatureKind → SignatureMap) → ε
  roles_replace : ∀ e m, roles (replace e m) = roles e
  unsigned_eq : ∀ e, unsigned e = replace e fun _ => .empty
  store_replace : ∀ e m kind key signature, store (replace e m) kind key signature =
    replace e (Function.update m kind ((m kind).insert key signature))
  payload_replace : ∀ e m n, message (replace e m) .payload = message (replace e n) .payload
  envelope_replace : ∀ e m n, m .payload = n .payload → message (replace e m) .envelope = message (replace e n) .envelope
  envelope_eq_error : ∀ e m error, message (replace e m) .envelope = .error error ↔
    message (replace e m) .payload = .error error

export Lawful (replace)

instance : Lawful Envelope where
  replace e m := { e with payloadSignatures := m .payload, envelopeSignatures := m .envelope }
  roles_replace _ _ := rfl
  unsigned_eq _ := rfl
  store_replace e m kind key signature := by cases kind <;> simp [store]
  payload_replace _ _ _ := rfl
  envelope_replace e m n h := by
    simp only [message, Transaction.envelopeMessage, h]
    rfl
  envelope_eq_error e m error := by
    simp only [message, Transaction.envelopeMessage, Transaction.payloadMessage, bind_eq_error, pure_ne_error]

theorem insert_loosenSignatures (m : SignatureMap) (key : Bytes × Int) (signature : Bytes) :
    Entries.insert (Cbor.Value.bytes key.1, key.2) (Cbor.Value.bytes signature) (Transaction.loosenSignatures m) =
      Transaction.loosenSignatures (m.insert key signature) := by
  simp only [Transaction.loosenSignatures, OrderedMap.insert]
  induction m.entries with
  | nil => rfl
  | cons e es ih =>
    have hkey : ((Cbor.Value.bytes e.1.1, e.1.2) == (Cbor.Value.bytes key.1, key.2)) = (e.1 == key) := rfl
    simp only [List.map_cons, Entries.insert, hkey]
    by_cases h : e.1 = key <;> simp [h, ih]

theorem areUnicode_loosenSignatures (m : SignatureMap) :
    (LooseTransaction.signatureItem (Transaction.loosenSignatures m)).isUnicode = true := by
  rw [Transaction.signatureItem_loosen]
  exact Transaction.signatureItem_isUnicode m

theorem written_eq_error {v : Cbor.Value} {error : Error} :
    LooseTransaction.written v = .error error ↔ v.isUnicode = false ∧ error = .notUnicode := by
  unfold LooseTransaction.written Cbor.encode?
  cases v.isUnicode <;> simp [eq_comm]

instance : Lawful LooseEnvelope where
  replace e m :=
    { e with
      payloadSignatures := Transaction.loosenSignatures (m .payload)
      envelopeSignatures := Transaction.loosenSignatures (m .envelope) }
  roles_replace _ _ := rfl
  unsigned_eq _ := rfl
  store_replace e m kind key signature := by cases kind <;> simp [store, insert_loosenSignatures]
  payload_replace _ _ _ := rfl
  envelope_replace e m n h := by
    simp only [message, LooseTransaction.envelopeMessage, h]
    rfl
  envelope_eq_error e m error := by
    simp only [message, LooseTransaction.envelopeMessage, LooseTransaction.payloadMessage, bind_eq_error,
      pure_ne_error, written_eq_error, Cbor.Value.isUnicode, Cbor.Value.areUnicode, areUnicode_loosenSignatures,
      Bool.and_true, and_false, exists_false, or_false]

variable {ε : Type} [Signable ε]

theorem addSignature_eq_ok {e e' : ε} {r : Requirement} : addSignature e r = .ok e' ↔
    ∃ text signature, message e r.kind = .ok text ∧ r.account.Signs text signature ∧
      e' = store e r.kind r.place signature := by
  simp only [addSignature, bind_eq_ok, Account.Signs]
  constructor
  · rintro ⟨text, htext, key, hkey, h⟩
    split at h
    · rename_i signature hsignature
      exact ⟨text, signature, htext, ⟨key, hkey, hsignature⟩, (pure_eq_ok.mp h).symm⟩
    · cases h
  · rintro ⟨text, signature, htext, ⟨key, hkey, hsignature⟩, rfl⟩
    refine ⟨text, htext, key, hkey, ?_⟩
    rw [hsignature]
    rfl

theorem addSignature_eq_error {e : ε} {r : Requirement} {error : Error} {key : AccountKey}
    (hkey : r.account.defaultKey = .ok key) (h : addSignature e r = .error error) :
    message e r.kind = .error error ∨ ∃ text reason, message e r.kind = .ok text ∧
      key.signer.sign text = .error reason ∧ error = .signerFailed r.role r.account.name r.keyIndex reason := by
  simp only [addSignature, hkey, bind_eq_error] at h
  rcases h with h | ⟨text, htext, h | ⟨_, hkey', h⟩⟩
  · exact .inl h
  · cases h
  · obtain rfl := Except.ok.inj hkey'
    split at h
    · exact absurd h pure_ne_error
    · rename_i reason hreason
      exact .inr ⟨text, reason, htext, hreason, (Except.error.inj h).symm⟩

variable [Lawful ε]

/-- Signing touches nothing but signatures. -/
theorem foldlM_addSignature_replace {e e' : ε} {m : SignatureKind → SignatureMap} {rs : List Requirement}
    (h : rs.foldlM addSignature (replace e m) = .ok e') : ∃ n, e' = replace e n := by
  induction rs generalizing m with
  | nil => exact ⟨m, (pure_eq_ok.mp h).symm⟩
  | cons r rs ih =>
    rw [List.foldlM_cons, bind_eq_ok] at h
    obtain ⟨_, hr, h⟩ := h
    obtain ⟨_, signature, _, _, rfl⟩ := addSignature_eq_ok.mp hr
    rw [Lawful.store_replace] at h
    exact ih h

/-- Payload signatures under places not used before are added in the order of their requirements; each is the answer
of its account's signer to the one payload message. -/
theorem foldlM_addSignature_payload {e e' : ε} {m : SignatureKind → SignatureMap} {rs : List Requirement}
    (hkind : ∀ r ∈ rs, r.kind = .payload) (hnew : ((m .payload).keys ++ rs.map Requirement.place).Nodup)
    (h : rs.foldlM addSignature (replace e m) = .ok e') :
    ∃ n new, e' = replace e n ∧ n .envelope = m .envelope ∧ (n .payload).entries = (m .payload).entries ++ new ∧
      List.Forall₂ (fun r (entry : (Bytes × Int) × Bytes) => entry.1 = r.place ∧
        ∃ text, message e' .payload = .ok text ∧ r.account.Signs text entry.2) rs new := by
  induction rs generalizing m with
  | nil => exact ⟨m, [], (pure_eq_ok.mp h).symm, rfl, (List.append_nil _).symm, .nil⟩
  | cons r rs ih =>
    rw [List.foldlM_cons, bind_eq_ok] at h
    obtain ⟨_, hr, h⟩ := h
    obtain ⟨text, signature, htext, hsigns, rfl⟩ := addSignature_eq_ok.mp hr
    have hr : r.kind = .payload := hkind r List.mem_cons_self
    rw [hr, Lawful.store_replace] at h
    rw [hr] at htext
    have hfresh : r.place ∉ (m .payload).keys := by
      intro hmem
      exact (List.nodup_append.mp hnew).2.2 _ hmem _ List.mem_cons_self rfl
    have hentries := OrderedMap.entries_insert_of_notMem (v := signature) hfresh
    obtain ⟨n, new, rfl, henvelope, hpayload, hall⟩ := ih (fun q hq => hkind q (List.mem_cons_of_mem r hq)) (by
      simpa [OrderedMap.keys, Entries.keys, hentries] using hnew) h
    refine ⟨n, (r.place, signature) :: new, rfl, ?_, ?_, .cons ⟨rfl, text, ?_, hsigns⟩ hall⟩
    · simpa using henvelope
    · simpa [hentries] using hpayload
    · rwa [Lawful.payload_replace e n m]

/-- Accounts signed a message one after another, each place once, the first account of a place for it. -/
structure SignedAll (signers : List Account) (text : Bytes) (m : SignatureMap) : Prop where
  keys : ∃ places : List (Bytes × Int), signers.map Account.slot? = places.map some ∧ m.keys = places.eraseDups
  signatures : ∀ place signature, m.find? place = some signature →
    ∃ a, signers.find? (fun a => a.slot? = some place) = some a ∧ a.Signs text signature

/-- One account alone signed a message. -/
def SignedAlone (signer : Account) (text : Bytes) (m : SignatureMap) : Prop :=
  ∃ place signature, signer.slot? = some place ∧ m.entries = [(place, signature)] ∧ signer.Signs text signature

/-- A paper signed for roles: the payload by the authorizers and then the proposer, the envelope, which covers these
signatures, by the payer. -/
structure Signed (e : ε) (roles : Roles) (proposer payer : Account) (m : SignatureKind → SignatureMap)
    (payload envelope : Bytes) : Prop where
  proposes : roles.proposer = some proposer
  pays : roles.payer = some payer
  payloadMessage : message (replace e m) .payload = .ok payload
  envelopeMessage : message (replace e m) .envelope = .ok envelope
  payloadSignatures : SignedAll (roles.authorizers ++ [proposer]) payload (m .payload)
  envelopeSignatures : SignedAlone payer envelope (m .envelope)

/-- Why a paper cannot be signed for roles: they do not tell who signs, there is no payload message, or a signer fails
after all before it have signed. -/
inductive Fault (e : ε) (roles : Roles) : Error → Prop where
  | roles {error : Error} : roles.requirements = .error error → Fault e roles error
  | message {error : Error} : message (unsigned e) .payload = .error error → Fault e roles error
  | signer {role : Text} {kind : SignatureKind} {a : Account} {key : AccountKey} {before after : List Requirement}
      {e' : ε} {text : Bytes} {reason : Text} :
      roles.requirements = .ok (before ++ ⟨a.address, key.index, kind, role, a⟩ :: after) →
      before.foldlM addSignature (unsigned e) = .ok e' → roles.Holds role kind a → a.defaultKey = .ok key →
      Signable.message e' kind = .ok text → key.signer.sign text = .error reason →
      Fault e roles (.signerFailed role a.name key.index reason)

/-- The requirements that are kept of some accounts are those of the first accounts of their places. -/
theorem signedAll_of_distinct {roles : Roles} {signers : List Account} {rs : List Requirement} {text : Bytes}
    {m : SignatureMap} (hasks : List.Forall₂ (roles.Asks .payload) signers rs)
    (hentries : List.Forall₂ (fun r (entry : (Bytes × Int) × Bytes) => entry.1 = r.place ∧
      r.account.Signs text entry.2) (Roles.distinct rs) m.entries) : SignedAll signers text m := by
  have hkind : ∀ r ∈ rs, r.kind = .payload := fun r hr => (Roles.Asks.of_mem hasks hr).kind_eq
  have hsigners : rs.map Requirement.account = signers := by
    simpa using (Lists.map_eq_map (g := Requirement.account) (f := fun a : Account => a)
      (hasks.imp fun _ _ h => h.account_eq.symm)).symm
  constructor
  · refine ⟨rs.map Requirement.place, ?_, ?_⟩
    · rw [List.map_map]
      exact Lists.map_eq_map (hasks.imp fun _ _ h => h.place)
    · rw [← Roles.map_place_distinct hkind]
      exact (Lists.map_eq_map (g := Prod.fst) (hentries.imp fun _ _ h => h.1.symm)).symm
  · intro place signature hfind
    obtain ⟨r, hr, rfl, hsigns⟩ := Lists.exists_of_mem_right hentries (OrderedMap.mem_entries_iff.mpr hfind)
    refine ⟨r.account, ?_, hsigns⟩
    have hfirst := Roles.find?_of_mem_distinct hr
    have hr := List.mem_of_find?_eq_some hfirst
    rw [← hsigners, List.find?_map]
    have hplace : rs.find? ((fun a => decide (a.slot? = some r.place)) ∘ Requirement.account) =
        rs.find? fun q => decide (q.slot = r.slot) := by
      refine List.find?_congr fun q hq => ?_
      have hslot := (Roles.Asks.of_mem hasks hq).place
      simp [hslot, Requirement.slot, Requirement.place, hkind q hq, hkind r hr]
    rw [hplace, hfirst, Option.map_some]

theorem signed_eq_ok {e e' : ε} {roles : Roles} (h : signed e roles = .ok e') :
    ∃ proposer payer m payload envelope, e' = replace e m ∧ Signed e roles proposer payer m payload envelope := by
  unfold signed at h
  rw [bind_eq_ok] at h
  obtain ⟨needed, hneeded, h⟩ := h
  obtain ⟨proposer, payer, rs, last, hproposer, hpayer, hrs, hlast, rfl⟩ := Roles.requirements_eq_ok hneeded
  have hkind : ∀ r ∈ rs, r.kind = .payload := fun r hr => (Roles.Asks.of_mem hrs hr).kind_eq
  rw [List.foldlM_append, bind_eq_ok, Lawful.unsigned_eq] at h
  obtain ⟨_, hfirst, h⟩ := h
  obtain ⟨n, new, rfl, henvelope, hpayload, hnew⟩ := foldlM_addSignature_payload
    (fun r hr => hkind r (List.mem_of_find?_eq_some (Roles.find?_of_mem_distinct hr))) (by
      rw [Roles.map_place_distinct hkind]
      exact Lists.nodup_eraseDups _) hfirst
  simp only [List.foldlM_cons, List.foldlM_nil, bind_pure, addSignature_eq_ok, hlast.account_eq, hlast.kind_eq,
    Lawful.store_replace] at h
  obtain ⟨envelope, signature, henvelopeText, hsigns, rfl⟩ := h
  obtain ⟨payload, hpayloadText⟩ : ∃ payload, message (replace e n) .payload = .ok payload := by
    cases htext : message (replace e n) .payload with
    | ok payload => exact ⟨payload, rfl⟩
    | error error => rw [(Lawful.envelope_eq_error e n error).mpr htext] at henvelopeText; cases henvelopeText
  refine ⟨proposer, payer, _, payload, envelope, rfl, hproposer, hpayer, ?_, ?_, ?_, ?_⟩
  · rw [← hpayloadText]
    exact Lawful.payload_replace _ _ _
  · rw [← henvelopeText]
    exact Lawful.envelope_replace _ _ _ (by simp)
  · refine signedAll_of_distinct hrs ?_
    simp only [ne_eq, reduceCtorEq, not_false_eq_true, Function.update_of_ne]
    rw [hpayload]
    refine hnew.imp ?_
    rintro r entry ⟨hplace, text, htext, hsigns⟩
    obtain rfl := Except.ok.inj (hpayloadText.symm.trans htext)
    exact ⟨hplace, hsigns⟩
  · exact ⟨last.place, signature, hlast.place, by simp [henvelope, OrderedMap.insert, OrderedMap.empty, Entries.insert], hsigns⟩

theorem signed_eq_error {e : ε} {roles : Roles} {error : Error} (h : signed e roles = .error error) :
    Fault e roles error := by
  unfold signed at h
  rw [bind_eq_error] at h
  rcases h with h | ⟨needed, hneeded, h⟩
  · exact .roles h
  · obtain ⟨before, r, after, e', rfl, hbefore, hr⟩ := foldlM_eq_error h
    obtain ⟨role, key, hold, hkey, hreq⟩ :=
      Roles.asks_of_mem_requirements hneeded (List.mem_append_right before List.mem_cons_self)
    rcases addSignature_eq_error hkey hr with hr | ⟨text, reason, htext, hreason, rfl⟩
    · -- Neither message is there without the other, whatever has been signed so far.
      have hpaper := hbefore
      rw [Lawful.unsigned_eq] at hpaper
      obtain ⟨m, rfl⟩ := foldlM_addSignature_replace hpaper
      refine .message ?_
      rw [Lawful.unsigned_eq, Lawful.payload_replace e _ m]
      cases hkind : r.kind with
      | payload => rwa [hkind] at hr
      | envelope => exact (Lawful.envelope_eq_error e m error).mp (hkind ▸ hr)
    · rw [hreq]
      exact .signer (hreq ▸ hneeded) hbefore hold hkey htext hreason

theorem roles_eq_of_unsigned_eq {e f : ε} (h : unsigned f = unsigned e) : Signable.roles f = Signable.roles e := by
  have hroles : ∀ e : ε, Signable.roles (unsigned e) = Signable.roles e := by
    intro e
    rw [Lawful.unsigned_eq, Lawful.roles_replace]
  rw [← hroles f, h, hroles e]

/-- An account whose signer puts a byte before a message, or fails. -/
def markingAccount (name : Text) (mark : UInt8) (works : Bool) : Account where
  name := name
  address := [mark]
  keys := [⟨0, ⟨[], none, fun text => if works then .ok (mark :: text) else .error "broken"⟩, .ecdsaP256, .sha3_256⟩]

/-- The proposer is an authorizer as well, and another authorizer stands twice. -/
def overlappingRoles (payerWorks : Bool) : Roles where
  proposer := some (markingAccount "alice" 1 true)
  payer := some (markingAccount "bob" 2 payerWorks)
  authorizers := [markingAccount "carol" 3 true, markingAccount "alice" 1 true, markingAccount "carol" 3 true]

/-- An envelope with a signature from before. -/
def overlapping : Envelope where
  script := [0x74, 0x78]
  arguments := []
  payer := [2]
  authorizers := [[3], [1], [3]]
  proposalKey := ⟨[1], 0, some 0⟩
  gasLimit := some 9999
  referenceBlock := some [7]
  payloadSignatures := .ofList [(([9], 9), [9])]
  envelopeSignatures := .empty
  roles := some (overlappingRoles true)

end Signable

end Signatory
