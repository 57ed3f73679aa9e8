import Signatory.Proofs.Ledger.Submission
import Signatory.Proofs.Transaction.Completion

/-! Which transactions a ledger accepts. The policy is stated by what a ledger holds and a transaction bears; validation
is a decision procedure for it, and its refusals are of two kinds only. -/

namespace Signatory
set_option autoImplicit false
open Outcome

namespace Engine

variable {μ : Type} (E : Engine μ)

/-- A key of the ledger, not revoked, verifies a signature of a message. -/
def Verifies (l : Ledger) (message : Bytes) (address : Bytes) (index : Int) (signature : Bytes) : Prop :=
  ∃ account key, l.accounts.find? address = some account ∧ account.key? index = some key ∧ key.revoked = false ∧
    verifySignature E.suite key.publicKey key.algorithm key.hash message signature = true

/-- What a ledger demands of a transaction with the given identifier and messages. -/
structure Policy (l : Ledger) (t : Transaction) (id payload envelope : Bytes) : Prop where
  fresh : id ∉ l.transactions.keys
  gasLimit : ∃ gas, t.gasLimit = some gas ∧ gas ≤ E.maxGasLimit
  reference : ∃ b ∈ l.blocks, t.referenceBlock = some b.id
  signed : t.FullySigned
  payloadSignatures : ∀ address index signature,
    t.payloadSignatures.find? (address, index) = some signature → E.Verifies l payload address index signature
  envelopeSignatures : ∀ address index signature,
    t.envelopeSignatures.find? (address, index) = some signature → E.Verifies l envelope address index signature
  sequence : ∃ account key, l.accounts.find? t.proposalKey.address = some account ∧
    account.key? t.proposalKey.keyIndex = some key ∧ t.proposalKey.sequenceNumber = some key.sequenceNumber

variable {E}

theorem filter_key?_eq_some {l : Ledger} {address : Bytes} {index : Int} {key : StoredKey} :
    (l.key? address index).filter (!·.revoked) = some key ↔ ∃ account, l.accounts.find? address = some account ∧
      account.key? index = some key ∧ key.revoked = false := by
  simp only [Ledger.key?, Option.filter_eq_some_iff, Option.bind_eq_some_iff, Bool.not_eq_true']
  constructor
  · rintro ⟨⟨account, haccount, hkey⟩, hrevoked⟩
    exact ⟨account, haccount, hkey, hrevoked⟩
  · rintro ⟨account, haccount, hkey, hrevoked⟩
    exact ⟨⟨account, haccount, hkey⟩, hrevoked⟩

theorem checkSignature_eq_ok {l : Ledger} {message address signature : Bytes} {index : Int} :
    E.checkSignature l message address index signature = .ok () ↔ E.Verifies l message address index signature := by
  unfold checkSignature
  split
  · rename_i hnone
    constructor
    · intro h
      cases h
    · rintro ⟨account, key, haccount, hkey, hrevoked, _⟩
      rw [filter_key?_eq_some.mpr ⟨account, haccount, hkey, hrevoked⟩] at hnone
      cases hnone
  · rename_i key hkey
    obtain ⟨account, haccount, hfind, hrevoked⟩ := filter_key?_eq_some.mp hkey
    constructor
    · intro h
      split at h
      · rename_i hverified
        exact ⟨account, key, haccount, hfind, hrevoked, hverified⟩
      · cases h
    · rintro ⟨account', key', haccount', hkey', hrevoked', hverified⟩
      have hsame := filter_key?_eq_some.mpr ⟨account', haccount', hkey', hrevoked'⟩
      rw [hkey] at hsame
      obtain rfl := Option.some.inj hsame
      rw [if_pos hverified]

theorem checkSignature_code {l : Ledger} {message address signature : Bytes} {index : Int} {r : Rejection}
    (h : E.checkSignature l message address index signature = .error r) :
    r.code = .invalidArgument ∧ ∀ a i, r ≠ .noProposalKey a i := by
  unfold checkSignature at h
  split at h
  · obtain rfl := Except.error.inj h
    exact ⟨rfl, by simp⟩
  · split at h
    · cases h
    · obtain rfl := Except.error.inj h
      exact ⟨rfl, by simp⟩

theorem checkSignatures_eq_ok {l : Ledger} {message : Bytes} {es : List ((Bytes × Int) × Bytes)} :
    E.checkSignatures l message es = .ok () ↔ ∀ e ∈ es, E.Verifies l message e.1.1 e.1.2 e.2 := by
  induction es with
  | nil => simp [checkSignatures]
  | cons e es ih =>
    rw [checkSignatures, bind_eq_ok, List.forall_mem_cons, ← checkSignature_eq_ok, ← ih]
    constructor
    · rintro ⟨_, he, hrest⟩
      exact ⟨he, hrest⟩
    · rintro ⟨he, hrest⟩
      exact ⟨(), he, hrest⟩

theorem checkSignatures_code {l : Ledger} {message : Bytes} {es : List ((Bytes × Int) × Bytes)} {r : Rejection}
    (h : E.checkSignatures l message es = .error r) :
    r.code = .invalidArgument ∧ ∀ a i, r ≠ .noProposalKey a i := by
  induction es with
  | nil => cases h
  | cons e es ih =>
    rw [checkSignatures, bind_eq_error] at h
    rcases h with h | ⟨_, _, h⟩
    · exact checkSignature_code h
    · exact ih h

theorem checkSignatures_entries_eq_ok {l : Ledger} {message : Bytes} {m : SignatureMap} :
    E.checkSignatures l message m.entries = .ok () ↔ ∀ address index signature,
      m.find? (address, index) = some signature → E.Verifies l message address index signature := by
  rw [checkSignatures_eq_ok]
  constructor
  · intro h address index signature hfind
    exact h ((address, index), signature) (OrderedMap.mem_entries_iff.mpr hfind)
  · rintro h ⟨⟨address, index⟩, signature⟩ he
    exact h address index signature (OrderedMap.mem_entries_iff.mp he)

/-- Where the proposal key is there, only its sequence number can be wrong. -/
theorem checkProposal_of_key? {l : Ledger} {address : Bytes} {index sequence : Int} {account : StoredAccount}
    {key : StoredKey} (haccount : l.accounts.find? address = some account) (hkey : account.key? index = some key) :
    checkProposal l address index sequence =
      if key.sequenceNumber = sequence then .ok () else .error (.sequence address index sequence key.sequenceNumber) := by
  have hfound : l.account address = .ok account := account_eq_ok.mpr haccount
  unfold checkProposal
  rw [hfound]
  simp only [bind, Except.bind, hkey]

/-- An envelope that may be signed passes validation exactly when it meets the policy. -/
theorem validate_iff_policy {l : Ledger} {t : Transaction} {id payload envelope : Bytes}
    (hpayload : t.payloadMessage = .ok payload) (henvelope : t.envelopeMessage = .ok envelope)
    (hprepared : t.isPrepared = true) : E.validate l t id = .ok () ↔ E.Policy l t id payload envelope := by
  obtain ⟨⟨reference, gas, sequence⟩, hnetwork⟩ := Option.isSome_iff_exists.mp hprepared
  obtain ⟨hreference, hgas, hsequence⟩ := Transaction.network?_eq_some.mp hnetwork
  rw [validate_eq_ok]
  constructor
  · rintro ⟨hfresh, _, _, _, _, _, hnetwork', hlimit, ⟨b, hb, hname⟩, hmissing, hpayload', hp, henvelope', he, hproposal⟩
    rw [hnetwork] at hnetwork'
    rw [hpayload] at hpayload'
    rw [henvelope] at henvelope'
    cases hnetwork'
    cases hpayload'
    cases henvelope'
    have hsigned := Transaction.missingSignatures_eq_nil.mp hmissing
    have hverified := checkSignatures_entries_eq_ok.mp hp
    obtain ⟨signature, hsignature⟩ := OrderedMap.mem_keys_iff.mp hsigned.proposer
    obtain ⟨account, key, haccount, hkey, _, _⟩ := hverified _ _ _ hsignature
    refine ⟨hfresh, ⟨gas, hgas, hlimit⟩, ⟨b, hb, ?_⟩, hsigned, hverified, checkSignatures_entries_eq_ok.mp he,
      account, key, haccount, hkey, ?_⟩
    · rw [hreference, hname]
    · rw [checkProposal_of_key? haccount hkey] at hproposal
      split at hproposal
      · rename_i hsame
        rw [hsequence, hsame]
      · cases hproposal
  · intro h
    obtain ⟨gas', hgas', hlimit⟩ := h.gasLimit
    obtain ⟨b, hb, hname⟩ := h.reference
    obtain ⟨account, key, haccount, hkey, hcurrent⟩ := h.sequence
    rw [hgas, Option.some.injEq] at hgas'
    rw [hreference, Option.some.injEq] at hname
    rw [hsequence, Option.some.injEq] at hcurrent
    refine ⟨h.fresh, reference, gas, sequence, payload, envelope, hnetwork, hgas' ▸ hlimit, ⟨b, hb, hname.symm⟩,
      Transaction.missingSignatures_eq_nil.mpr h.signed, hpayload,
      checkSignatures_entries_eq_ok.mpr h.payloadSignatures, henvelope,
      checkSignatures_entries_eq_ok.mpr h.envelopeSignatures, ?_⟩
    rw [checkProposal_of_key? haccount hkey, if_pos hcurrent.symm]

/-- A refusal tells that the transaction is stored, or that something is wrong with it; never that an account or the
proposal key is not there, for a signature has been verified under that key before. -/
theorem validate_eq_error {l : Ledger} {t : Transaction} {id : Bytes} {error : Error} (ht : t.Ready)
    (h : E.validate l t id = .error error) :
    ∃ r : Rejection, error = .rejected r ∧
      r.code = (if id ∈ l.transactions.keys then .alreadyExists else .invalidArgument) ∧
      ∀ a i, r ≠ .noProposalKey a i := by
  obtain ⟨v, _, hitem⟩ := ht.exists_payloadItem
  have hpayload := Transaction.payloadMessage_eq hitem
  have henvelope := Transaction.envelopeMessage_eq hitem
  obtain ⟨⟨reference, gas, sequence⟩, hnetwork⟩ := Option.isSome_iff_exists.mp ht.prepared
  unfold validate at h
  simp only [hnetwork, check_eq_error, OrderedMap.contains_iff] at h
  rcases h with ⟨hstored, rfl⟩ | ⟨hnew, h⟩
  · exact ⟨_, rfl, by rw [if_pos hstored]; rfl, by simp⟩
  rw [if_neg hnew]
  rcases h with ⟨_, rfl⟩ | ⟨_, ⟨_, rfl⟩ | ⟨_, ⟨_, rfl⟩ | ⟨hmissing, h⟩⟩⟩
  · exact ⟨_, rfl, rfl, by simp⟩
  · exact ⟨_, rfl, rfl, by simp⟩
  · exact ⟨_, rfl, rfl, by simp⟩
  have hsigned : t.FullySigned := Transaction.missingSignatures_eq_nil.mp (by simpa using hmissing)
  rw [hpayload, henvelope] at h
  rcases bind_eq_error.mp h with h | ⟨_, hp, h⟩
  · cases h
  obtain rfl := Except.ok.inj hp
  rcases bind_eq_error.mp h with h | ⟨_, hp, h⟩
  · obtain ⟨r, hr, rfl⟩ := reject_eq_error.mp h
    exact ⟨r, rfl, checkSignatures_code hr⟩
  rcases bind_eq_error.mp h with h | ⟨_, he, h⟩
  · cases h
  obtain rfl := Except.ok.inj he
  rcases bind_eq_error.mp h with h | ⟨_, _, h⟩
  · obtain ⟨r, hr, rfl⟩ := reject_eq_error.mp h
    exact ⟨r, rfl, checkSignatures_code hr⟩
  -- The proposal key has a signature that was verified, so it is there.
  obtain ⟨signature, hsignature⟩ := OrderedMap.mem_keys_iff.mp hsigned.proposer
  obtain ⟨account, key, haccount, hkey, _, _⟩ :=
    checkSignatures_entries_eq_ok.mp (reject_eq_ok.mp hp) _ _ _ hsignature
  obtain ⟨r, hr, rfl⟩ := reject_eq_error.mp h
  rw [checkProposal_of_key? haccount hkey] at hr
  split at hr
  · cases hr
  · obtain rfl := Except.error.inj hr
    exact ⟨_, rfl, rfl, by simp⟩

end Engine

end Signatory
