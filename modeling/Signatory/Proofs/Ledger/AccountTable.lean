import Signatory.Proofs.Ledger.Growth
import Signatory.Proofs.Ledger.Replay

/-! The table of accounts. Each account stands under its own address, which it has been given as it was registered, and its
keys are numbered from zero on. An attempt of the engine may remove accounts but makes none; so the next address is
always new. -/

namespace Signatory
set_option autoImplicit false

/-- The keys of an account are numbered by their places. -/
def StoredAccount.Numbered (a : StoredAccount) : Prop :=
  a.keys.map StoredKey.index = (List.range a.keys.length).map Int.ofNat

theorem StoredAccount.SameFrame.numbered {a a' : StoredAccount} (h : a.SameFrame a') (ha : a.Numbered) :
    a'.Numbered := by
  have hlength := congrArg List.length h.indices
  simp only [List.length_map] at hlength
  rw [Numbered, h.indices, hlength]
  exact ha

/-- The table of accounts of a ledger. Those who have proposed a stored transaction stand or have stood in it. -/
structure Ledger.Tabled (l : Ledger) : Prop where
  address : ∀ address a, l.accounts.find? address = some a → a.address = address
  numbered : ∀ address a, l.accounts.find? address = some a → a.Numbered
  issued : ∀ address ∈ l.accounts.keys, Issued l.accountCounter address
  proposers : ∀ t ∈ l.transactions.values, ∃ a, t.proposer = .bytes a ∧ Issued l.accountCounter a

namespace Engine

variable {μ : Type} {E : Engine μ} {l l' : Ledger} {x : Admission}

/-- Sealing changes no account but by a bump. -/
theorem Sealing.stemFrom {s s' : State μ} {emitted : List Json} {message : Text} {answer : Except Error Bytes}
    (h : Sealing E s x emitted message answer s') : s.ledger.accounts.StemFrom s'.ledger.accounts := by
  cases h with
  | noKey _ => exact Accounts.stemFrom_refl _
  | noTime hbump _ => exact stemFrom_of_bump hbump
  | noEvents hbump _ _ => exact stemFrom_of_bump hbump
  | done hbump _ _ => exact stemFrom_of_bump hbump

theorem attempt_stemFrom (hR : E.runtime.TouchesAccounts) (s : State μ) (x : Admission) :
    s.ledger.accounts.StemFrom (E.attempt s (.ok x)).2.ledger.accounts := by
  have hrunning := attempt_running E s x
  generalize E.attempt s (.ok x) = result at hrunning ⊢
  obtain ⟨answer, s'⟩ := result
  cases hrunning with
  | crashed _ => exact Accounts.stemFrom_refl _
  | failed _ hsealing => exact hsealing.stemFrom
  | done hexecute hsealing => exact (hR _ _ _ _ _ _ hexecute).stemFrom.trans hsealing.stemFrom

theorem Growing.accountCounter (h : Growing E l x l') : l'.accountCounter = l.accountCounter := by
  cases h <;> rfl

theorem Growing.tabled (hgrowing : Growing E l x l') (hfits : x.Fits l) (hstem : l.accounts.StemFrom l'.accounts)
    (h : l.Tabled) : l'.Tabled where
  address address a' ha' := by
    obtain ⟨a, ha, hframe⟩ := hstem address a' ha'
    exact hframe.address.trans (h.address address a ha)
  numbered address a' ha' := by
    obtain ⟨a, ha, hframe⟩ := hstem address a' ha'
    exact hframe.numbered (h.numbered address a ha)
  issued address haddress := by
    rw [hgrowing.accountCounter]
    exact h.issued address (hstem.mem_keys haddress)
  proposers := by
    rw [hgrowing.accountCounter]
    cases hgrowing with
    | touched _ => exact h.proposers
    | torn _ _ => exact h.proposers
    | sealed accounts time events message =>
      exact proposers_sealed hfits h.issued h.proposers accounts time events message

theorem tabled_attempt (hR : E.runtime.TouchesAccounts) {s : State μ} {admission : Except Error Admission}
    (hfits : ∀ x, admission = .ok x → x.Fits s.ledger) (h : s.ledger.Tabled) :
    (E.attempt s admission).2.ledger.Tabled ∧
      (E.attempt s admission).2.ledger.accountCounter = s.ledger.accountCounter := by
  cases admission with
  | error error => exact ⟨h, rfl⟩
  | ok x =>
    have hgrowing := attempt_growing (E := E) s x
    exact ⟨hgrowing.tabled (hfits x rfl) (attempt_stemFrom hR s x) h, hgrowing.accountCounter⟩

theorem numbered_newAccount (address : Bytes) (keys : List RawKey) : (newAccount address keys).Numbered := by
  have hlength := congrArg List.length (map_index_keysFrom keys 0)
  simp only [List.length_map, List.length_range'] at hlength
  rw [StoredAccount.Numbered, List.range_eq_range']
  exact hlength ▸ map_index_keysFrom keys 0

theorem tabled_createAccount {s : State μ} (h : s.ledger.Tabled) (keys : List RawKey) :
    (createAccount s keys).2.ledger.Tabled where
  address address a ha := by
    rw [find?_createAccount] at ha
    split at ha
    · obtain rfl := Option.some.inj ha
      rfl
    · exact h.address address a ha
  numbered address a ha := by
    rw [find?_createAccount] at ha
    split at ha
    · obtain rfl := Option.some.inj ha
      exact numbered_newAccount address keys
    · exact h.numbered address a ha
  issued := issued_createAccount keys h.issued
  proposers t ht := by
    obtain ⟨a, ha, hissued⟩ := h.proposers t ht
    exact ⟨a, ha, hissued.mono (Nat.le_succ _)⟩

theorem tabled_start {service : RawKey} {memory : μ} {s : State μ} (h : E.start service memory = .ok s) :
    s.ledger.Tabled where
  address address a ha := by
    obtain ⟨rfl, rfl⟩ := account_of_start h ha
    rfl
  numbered address a ha := by
    obtain ⟨_, rfl⟩ := account_of_start h ha
    exact numbered_newAccount _ _
  issued address haddress := by
    obtain ⟨a, ha⟩ := OrderedMap.mem_keys_iff.mp haddress
    exact .inl (account_of_start h ha).1
  proposers t ht := by
    obtain ⟨time, hledger⟩ := start_eq_ok h
    rw [hledger] at ht
    cases ht

/-- A new account takes an address that neither an account nor a proposer has, and leaves all accounts as they are. -/
theorem fresh_createAccount {s : State μ} (h : s.ledger.Tabled) (hcounter : s.ledger.accountCounter < 2 ^ 63)
    (keys : List RawKey) :
    s.ledger.accounts.find? (nextAddress s.ledger) = none ∧
    (∀ t ∈ s.ledger.transactions.values, t.proposer ≠ .bytes (nextAddress s.ledger)) ∧
    ∀ address a, s.ledger.accounts.find? address = some a →
      (createAccount s keys).2.ledger.accounts.find? address = some a := by
  have hnew := not_issued_next hcounter
  have hunused : nextAddress s.ledger ∉ s.ledger.accounts.keys := fun hold => hnew (h.issued _ hold)
  refine ⟨?_, ?_, ?_⟩
  · rw [Option.eq_none_iff_forall_ne_some]
    intro a ha
    exact hunused (OrderedMap.mem_keys_iff.mpr ⟨a, ha⟩)
  · intro t ht hproposer
    obtain ⟨a, ha, hissued⟩ := h.proposers t ht
    obtain rfl := Cbor.Value.bytes.inj (ha.symm.trans hproposer)
    exact hnew hissued
  · intro address a ha
    rw [find?_createAccount, if_neg]
    · exact ha
    · rintro rfl
      exact hunused (OrderedMap.mem_keys_iff.mpr ⟨a, ha⟩)

end Engine

end Signatory
