import Signatory.Proofs.Transaction.Binding
import Signatory.Proofs.Transaction.Signing

/-! From roles to an envelope that lacks no signature: building succeeds, every signer that is asked answers, and what
comes out is complete, with roles as well as by address. -/

namespace Signatory
set_option autoImplicit false
open Outcome

namespace Transaction

/-- Every signature that must be there is there: one under the proposal key, one of each authorizer, one of the payer. -/
structure FullySigned (t : Transaction) : Prop where
  proposer : (t.proposalKey.address, t.proposalKey.keyIndex) ∈ t.payloadSignatures.keys
  authorizers : ∀ a ∈ t.authorizers, ∃ index, (a, index) ∈ t.payloadSignatures.keys
  payer : ∃ index, (t.payer, index) ∈ t.envelopeSignatures.keys

theorem mem_signers {m : SignatureMap} {address : Bytes} :
    address ∈ signers m ↔ ∃ index, (address, index) ∈ m.keys := by
  simp [signers]

/-- The signature of the proposal key makes up for the authorizer that is not asked of the proposer. -/
theorem missingSignatures_eq_nil {t : Transaction} : t.missingSignatures = [] ↔ t.FullySigned := by
  have hproposer : t.payloadSignatures.contains (t.proposalKey.address, t.proposalKey.keyIndex) = true ↔
      (t.proposalKey.address, t.proposalKey.keyIndex) ∈ t.payloadSignatures.keys := OrderedMap.contains_iff
  have hpayer : (signers t.envelopeSignatures).contains t.payer = true ↔
      ∃ index, (t.payer, index) ∈ t.envelopeSignatures.keys := by
    rw [List.contains_iff_mem, mem_signers]
  simp only [missingSignatures, List.append_eq_nil_iff, List.map_eq_nil_iff, ite_eq_left_iff, hproposer, hpayer,
    List.cons_ne_self, imp_false, not_not]
  constructor
  · rintro ⟨⟨hp, hunsigned⟩, he⟩
    refine ⟨hp, ?_, he⟩
    intro a ha
    rw [← mem_signers]
    by_cases hsame : a = t.proposalKey.address
    · rw [hsame, mem_signers]
      exact ⟨_, hp⟩
    · by_contra hnot
      have hnone := List.filter_eq_nil_iff.mp hunsigned a (List.mem_eraseDups.mpr ha)
      simp [hnot, hsame] at hnone
  · intro h
    refine ⟨⟨h.proposer, ?_⟩, h.payer⟩
    rw [List.filter_eq_nil_iff]
    intro a ha
    have hsigned := mem_signers.mpr (h.authorizers a (List.mem_eraseDups.mp ha))
    simp [hsigned]

end Transaction

/-- The account has a default key, whose signer answers every message. -/
def Account.Willing (a : Account) : Prop :=
  ∃ key, a.defaultKey = .ok key ∧ ∀ message, ∃ signature, key.signer.sign message = .ok signature

namespace Roles

/-- All accounts that have a role. -/
def accounts (roles : Roles) : List Account := roles.authorizers ++ roles.proposer.toList ++ roles.payer.toList

theorem Holds.mem_accounts {roles : Roles} {role : Text} {kind : SignatureKind} {a : Account}
    (h : roles.Holds role kind a) : a ∈ roles.accounts := by
  unfold accounts
  cases h with
  | authorizer ha => exact List.mem_append_left _ (List.mem_append_left _ ha)
  | proposer ha => exact List.mem_append_left _ (List.mem_append_right _ (by simp [ha]))
  | payer ha => exact List.mem_append_right _ (by simp [ha])

theorem requirements_of_keys {roles : Roles} {proposer payer : Account} (hproposer : roles.proposer = some proposer)
    (hpayer : roles.payer = some payer) (hkeys : ∀ a ∈ roles.accounts, ∃ key, a.defaultKey = .ok key) :
    ∃ needed, roles.requirements = .ok needed := by
  have hasks {kind : SignatureKind} {role : Text} {a : Account} (hold : roles.Holds role kind a) :
      ∃ r, requirement kind role a = .ok r := by
    obtain ⟨key, hkey⟩ := hkeys a hold.mem_accounts
    exact ⟨_, requirement_eq_ok.mpr ⟨key, hkey, rfl⟩⟩
  obtain ⟨authorizers, hauthorizers⟩ := exists_mapM_eq_ok (f := requirement .payload "authorizer")
    fun a (ha : a ∈ roles.authorizers) => hasks (.authorizer ha)
  obtain ⟨first, hfirst⟩ := hasks (.proposer hproposer)
  obtain ⟨last, hlast⟩ := hasks (.payer hpayer)
  refine ⟨distinct (authorizers ++ [first]) ++ [last], ?_⟩
  simp only [requirements, hproposer, hpayer, hauthorizers, hfirst, hlast]
  rfl

end Roles

namespace Signable

/-- Signing fails only where there is no message or a signer refuses. -/
theorem signed_of_willing {ε : Type} [Signable ε] [Lawful ε] {e : ε} {roles : Roles} {proposer payer : Account}
    {payload : Bytes} (hproposer : roles.proposer = some proposer) (hpayer : roles.payer = some payer)
    (hwilling : ∀ a ∈ roles.accounts, a.Willing) (hmessage : message (unsigned e) .payload = .ok payload) :
    ∃ e', signed e roles = .ok e' := by
  cases hsigned : signed e roles with
  | ok e' => exact ⟨e', rfl⟩
  | error error =>
    cases signed_eq_error hsigned with
    | roles hroles =>
      have hkeys : ∀ a ∈ roles.accounts, ∃ key, a.defaultKey = .ok key := by
        intro a ha
        obtain ⟨key, hkey, _⟩ := hwilling a ha
        exact ⟨key, hkey⟩
      obtain ⟨needed, hneeded⟩ := Roles.requirements_of_keys hproposer hpayer hkeys
      rw [hneeded] at hroles
      cases hroles
    | message hfails =>
      rw [hmessage] at hfails
      cases hfails
    | signer _ _ hold hkey _ hrefuses =>
      obtain ⟨key, hkey', hsigns⟩ := hwilling _ hold.mem_accounts
      obtain rfl := Except.ok.inj (hkey.symm.trans hkey')
      obtain ⟨signature, hsignature⟩ := hsigns _
      rw [hsignature] at hrefuses
      cases hrefuses

theorem SignedAll.mem_keys {signers : List Account} {text : Bytes} {m : SignatureMap} (h : SignedAll signers text m)
    {a : Account} (ha : a ∈ signers) {place : Bytes × Int} (hplace : a.slot? = some place) : place ∈ m.keys := by
  obtain ⟨places, hplaces, hkeys⟩ := h.keys
  have hslot : some place ∈ places.map some := by
    rw [← hplaces, ← hplace]
    exact List.mem_map_of_mem ha
  obtain ⟨_, hmem, hsame⟩ := List.mem_map.mp hslot
  obtain rfl := Option.some.inj hsame
  rw [hkeys]
  exact List.mem_eraseDups.mpr hmem

/-- Each signature is that of a signer, under its own place. -/
theorem SignedAll.exists_signs {signers : List Account} {text : Bytes} {m : SignatureMap} (h : SignedAll signers text m)
    {place : Bytes × Int} {signature : Bytes} (hfind : m.find? place = some signature) :
    ∃ a ∈ signers, a.slot? = some place ∧ a.Signs text signature := by
  obtain ⟨a, ha, hsigns⟩ := h.signatures place signature hfind
  have hplace := List.find?_some ha
  exact ⟨a, List.mem_of_find?_eq_some ha, of_decide_eq_true hplace, hsigns⟩

theorem SignedAlone.mem_keys {signer : Account} {text : Bytes} {m : SignatureMap} (h : SignedAlone signer text m)
    {place : Bytes × Int} (hplace : signer.slot? = some place) : place ∈ m.keys := by
  obtain ⟨other, signature, hother, hentries, _⟩ := h
  obtain rfl := Option.some.inj (hplace.symm.trans hother)
  rw [OrderedMap.keys, Entries.keys, hentries]
  exact List.mem_singleton_self _

theorem SignedAlone.signs {signer : Account} {text : Bytes} {m : SignatureMap} (h : SignedAlone signer text m)
    {place : Bytes × Int} {signature : Bytes} (hfind : m.find? place = some signature) :
    signer.slot? = some place ∧ signer.Signs text signature := by
  obtain ⟨other, made, hother, hentries, hsigns⟩ := h
  have hmem := OrderedMap.mem_entries_iff.mpr hfind
  rw [hentries, List.mem_singleton, Prod.mk.injEq] at hmem
  obtain ⟨rfl, rfl⟩ := hmem
  exact ⟨hother, hsigns⟩

end Signable

namespace Envelope
open Signable (Signed)

/-- An envelope as it is built from roles, before anybody has signed it. -/
structure Staged (e : Envelope) (roles : Roles) (proposer payer : Account) : Prop where
  attached : e.roles = some roles
  payer : e.payer = payer.address
  authorizers : e.authorizers = roles.authorizers.map Account.address
  proposal : proposer.slot? = some (e.proposalKey.address, e.proposalKey.keyIndex)

theorem build_eq_ok {roles : Roles} {proposer payer : Account} {key : AccountKey} {script : Bytes}
    {arguments : List Json} {gasLimit : Option Int} (hproposer : roles.proposer = some proposer)
    (hpayer : roles.payer = some payer) (hkey : proposer.defaultKey = .ok key)
    (harguments : ∀ v ∈ arguments, ∃ b, Argument.encode v = .ok b) (hgas : ∀ gas, gasLimit = some gas → 0 < gas) :
    build roles (.bytes script) arguments gasLimit none = .ok {
      script, arguments, gasLimit
      payer := payer.address
      authorizers := roles.authorizers.map Account.address
      proposalKey := ⟨proposer.address, key.index, none⟩
      referenceBlock := none
      payloadSignatures := .empty
      envelopeSignatures := .empty
      roles := some roles } := by
  obtain ⟨encoded, hencoded⟩ := exists_mapM_eq_ok harguments
  unfold build
  simp only [hproposer, hpayer, hencoded, hkey]
  cases gasLimit with
  | none => rfl
  | some gas =>
    have hpositive : ¬gas ≤ 0 := Int.not_le.mpr (hgas gas rfl)
    simp only [hpositive, if_false]
    rfl

/-- What is built has its roles attached, and each of its arguments is a typed value. -/
theorem of_build {roles : Roles} {script : ScriptSource} {arguments : List Json}
    {gasLimit requiredAuthorizers : Option Int} {e : Envelope}
    (h : build roles script arguments gasLimit requiredAuthorizers = .ok e) :
    e.roles = some roles ∧ ∀ v ∈ e.arguments, ∃ b, Argument.encode v = .ok b := by
  unfold build at h
  split at h
  · cases h
  · cases h
  · have hrest : ∃ encoded, arguments.mapM Argument.encode = .ok encoded ∧ e.roles = some roles ∧
        e.arguments = arguments := by
      cases requiredAuthorizers <;> cases gasLimit <;>
        simp only [check_eq_ok, bind_eq_ok, pure_eq_ok] at h <;> grind
    obtain ⟨encoded, hencoded, hroles, rfl⟩ := hrest
    refine ⟨hroles, ?_⟩
    intro v hv
    obtain ⟨b, _, hb⟩ := Lists.exists_of_mem_right (mapM_eq_ok.mp hencoded).flip hv
    exact ⟨b, hb⟩

/-- An envelope that is ready is signed by the roles that are attached to it, if they are willing. -/
theorem sign_eq_ok {e : Envelope} {roles : Roles} {proposer payer : Account} (hready : e.Ready)
    (hattached : e.roles = some roles) (hproposer : roles.proposer = some proposer) (hpayer : roles.payer = some payer)
    (hwilling : ∀ a ∈ roles.accounts, a.Willing) :
    ∃ m payload envelope, Signable.sign e none = (.ok (), Signable.replace e m) ∧
      Signed e roles proposer payer m payload envelope := by
  have hunsigned : (Signable.unsigned e).toTransaction.Ready := ⟨hready.prepared, hready.arguments⟩
  obtain ⟨v, _, hitem⟩ := hunsigned.exists_payloadItem
  have hmessage : Signable.message (Signable.unsigned e) .payload = .ok (Transaction.domainTag ++ Cbor.encode v) :=
    Transaction.payloadMessage_eq hitem
  obtain ⟨e', hsigned⟩ := Signable.signed_of_willing hproposer hpayer hwilling hmessage
  obtain ⟨_, _, m, payload, envelope, rfl, hspec⟩ := Signable.signed_eq_ok hsigned
  obtain rfl := Option.some.inj (hproposer.symm.trans hspec.proposes)
  obtain rfl := Option.some.inj (hpayer.symm.trans hspec.pays)
  refine ⟨m, payload, envelope, ?_, hspec⟩
  have hgiven : (none <|> Signable.roles e) = some roles := hattached
  unfold Signable.sign
  rw [hgiven]
  simp only [hsigned]

theorem fullySigned_of_signed {e : Envelope} {roles : Roles} {proposer payer : Account}
    {m : SignatureKind → SignatureMap} {payload envelope : Bytes} (hstaged : e.Staged roles proposer payer)
    (hsigned : Signed e roles proposer payer m payload envelope)
    (hkeys : ∀ a ∈ roles.accounts, ∃ key, a.defaultKey = .ok key) :
    (Signable.replace e m).toTransaction.FullySigned := by
  constructor
  · exact hsigned.payloadSignatures.mem_keys (List.mem_append_right _ (List.mem_singleton_self _)) hstaged.proposal
  · intro a ha
    have ha : a ∈ e.authorizers := ha
    rw [hstaged.authorizers] at ha
    obtain ⟨authorizer, hmem, rfl⟩ := List.mem_map.mp ha
    obtain ⟨key, hkey⟩ := hkeys authorizer (Roles.Holds.authorizer hmem).mem_accounts
    exact ⟨key.index, hsigned.payloadSignatures.mem_keys (List.mem_append_left _ hmem)
      (Account.slot?_of_defaultKey hkey)⟩
  · obtain ⟨key, hkey⟩ := hkeys payer (Roles.Holds.payer hsigned.pays).mem_accounts
    have hpayer : (Signable.replace e m).payer = payer.address := hstaged.payer
    rw [hpayer]
    exact ⟨key.index, hsigned.envelopeSignatures.mem_keys (Account.slot?_of_defaultKey hkey)⟩

/-- With the roles at hand, nothing that they ask for is missing. -/
theorem checkComplete_of_signed {e : Envelope} {roles : Roles} {proposer payer : Account}
    {m : SignatureKind → SignatureMap} {payload envelope : Bytes} (hroles : e.roles = some roles)
    (hprepared : e.isPrepared = true) (hsigned : Signed e roles proposer payer m payload envelope)
    (hkeys : ∀ a ∈ roles.accounts, ∃ key, a.defaultKey = .ok key) :
    (Signable.replace e m).checkComplete = .ok () := by
  obtain ⟨needed, hneeded⟩ := Roles.requirements_of_keys hsigned.proposes hsigned.pays hkeys
  have hthere : ∀ r ∈ needed, ((Signable.replace e m).signatures r.kind).contains (r.address, r.keyIndex) = true := by
    intro r hr
    obtain ⟨role, key, hold, hkey, hrequirement⟩ := Roles.asks_of_mem_requirements hneeded hr
    rw [OrderedMap.contains_iff, hrequirement]
    have hslot := Account.slot?_of_defaultKey hkey
    generalize r.kind = kind at hold
    generalize r.account = a at hold hkey hslot
    cases hold with
    | authorizer ha => exact hsigned.payloadSignatures.mem_keys (List.mem_append_left _ ha) hslot
    | proposer ha =>
      obtain rfl := Option.some.inj (hsigned.proposes.symm.trans ha)
      exact hsigned.payloadSignatures.mem_keys (List.mem_append_right _ (List.mem_singleton_self _)) hslot
    | payer ha =>
      obtain rfl := Option.some.inj (hsigned.pays.symm.trans ha)
      exact hsigned.envelopeSignatures.mem_keys hslot
  have hmissing : (Signable.replace e m).missing = .ok [] := by
    have hnone : (needed.filter fun r =>
        !((Signable.replace e m).signatures r.kind).contains (r.address, r.keyIndex)) = [] := by
      rw [List.filter_eq_nil_iff]
      intro r hr
      simp [hthere r hr]
    have hattached : (Signable.replace e m).roles = some roles := hroles
    simp only [missing, hattached, hneeded, bind, Except.bind, pure, Except.pure, hnone, List.map_nil]
  have hprepared : (Signable.replace e m).isPrepared = true := hprepared
  simp only [checkComplete, hprepared, hmissing]
  rfl

end Envelope

end Signatory
