import Mathlib.Data.List.Forall2
import Signatory.Ledger.Engine
import Signatory.Proofs.Lists
import Signatory.Proofs.OrderedMap

/-! Accounts and their sequence numbers. What a run may do to accounts makes none of them and leaves the numbers alone; a
bump raises one number. -/

namespace Signatory
set_option autoImplicit false

def StoredKey.sequence? (keys : List StoredKey) (index : Int) : Option Int :=
  (keys.find? fun k => k.index = index).map (·.sequenceNumber)

def Accounts.sequence? (accounts : Accounts) (address : Bytes) (index : Int) : Option Int :=
  (accounts.find? address).bind fun a => StoredKey.sequence? a.keys index

/-- A key that may have been revoked, or its revocation taken back. -/
def StoredKey.Touched (k k' : StoredKey) : Prop := k' = { k with revoked := k'.revoked }

/-- An account with another balance, and keys that may have been revoked. -/
structure StoredAccount.Touched (a a' : StoredAccount) : Prop where
  address : a'.address = a.address
  keys : List.Forall₂ StoredKey.Touched a.keys a'.keys

/-- Accounts that have been touched, and some removed. -/
def Accounts.Touched (before after : Accounts) : Prop :=
  ∀ address a', after.find? address = some a' → ∃ a, before.find? address = some a ∧ a.Touched a'

/-- An account with the same address and as many keys under the same indices. -/
structure StoredAccount.SameFrame (a a' : StoredAccount) : Prop where
  address : a'.address = a.address
  indices : a'.keys.map StoredKey.index = a.keys.map StoredKey.index

/-- Each account of a table has stood in an earlier one, under the same address and in the same frame. -/
def Accounts.StemFrom (before after : Accounts) : Prop :=
  ∀ address a', after.find? address = some a' → ∃ a, before.find? address = some a ∧ a.SameFrame a'

/-- The keys of an account are told under the indices that they have. -/
theorem StoredAccount.key?_toRecord (a : StoredAccount) (index : Int) :
    a.toRecord.key? index = (a.key? index).map StoredKey.toRecord := List.find?_map ..

theorem StoredAccount.touched_refl (a : StoredAccount) : a.Touched a :=
  ⟨rfl, List.forall₂_same.mpr fun _ _ => rfl⟩

theorem Accounts.touched_refl (accounts : Accounts) : accounts.Touched accounts :=
  fun _ a h => ⟨a, h, a.touched_refl⟩

namespace Accounts

variable {accounts accounts' accounts'' : Accounts}

theorem stemFrom_refl (accounts : Accounts) : accounts.StemFrom accounts := fun _ a h => ⟨a, h, rfl, rfl⟩

theorem StemFrom.trans (h : accounts.StemFrom accounts') (h' : accounts'.StemFrom accounts'') :
    accounts.StemFrom accounts'' := by
  intro address a'' ha''
  obtain ⟨a', ha', haddress', hindices'⟩ := h' address a'' ha''
  obtain ⟨a, ha, haddress, hindices⟩ := h address a' ha'
  exact ⟨a, ha, haddress'.trans haddress, hindices'.trans hindices⟩

theorem StemFrom.mem_keys (h : accounts.StemFrom accounts') {address : Bytes} (haddress : address ∈ accounts'.keys) :
    address ∈ accounts.keys := by
  obtain ⟨a', ha'⟩ := OrderedMap.mem_keys_iff.mp haddress
  obtain ⟨a, ha, _⟩ := h address a' ha'
  exact OrderedMap.mem_keys_iff.mpr ⟨a, ha⟩

theorem Touched.stemFrom (h : accounts.Touched accounts') : accounts.StemFrom accounts' := by
  intro address a' ha'
  obtain ⟨a, ha, haddress, hkeys⟩ := h address a' ha'
  refine ⟨a, ha, haddress, ?_⟩
  rw [Lists.map_eq_map_iff]
  exact hkeys.flip.imp fun _ _ hk => congrArg StoredKey.index hk

end Accounts

theorem StoredKey.sequence?_touched {keys keys' : List StoredKey} (h : List.Forall₂ StoredKey.Touched keys keys')
    (index : Int) : sequence? keys' index = sequence? keys index := by
  induction h with
  | nil => rfl
  | @cons k k' _ _ hk _ ih =>
    have hindex : k'.index = k.index := by rw [hk]
    have hsequence : k'.sequenceNumber = k.sequenceNumber := by rw [hk]
    simp only [sequence?, List.find?_cons, hindex] at ih ⊢
    split
    · simp [hsequence]
    · exact ih

theorem Accounts.Touched.sequence?_eq {before after : Accounts} (h : before.Touched after) {address : Bytes}
    (hkept : address ∈ after.keys) (index : Int) : after.sequence? address index = before.sequence? address index := by
  obtain ⟨a', ha'⟩ := OrderedMap.mem_keys_iff.mp hkept
  obtain ⟨a, ha, htouched⟩ := h address a' ha'
  simp only [sequence?, ha, ha', Option.bind_some, StoredKey.sequence?_touched htouched.keys]

theorem Accounts.sequence?_eq_none {accounts : Accounts} {address : Bytes} (h : address ∉ accounts.keys) (index : Int) :
    accounts.sequence? address index = none := by
  cases hfind : accounts.find? address with
  | none => simp [sequence?, hfind]
  | some a => exact absurd (OrderedMap.mem_keys_iff.mpr ⟨a, hfind⟩) h

theorem Accounts.mem_keys_of_sequence? {accounts : Accounts} {address : Bytes} {index n : Int}
    (h : accounts.sequence? address index = some n) : address ∈ accounts.keys := by
  by_contra hgone
  rw [sequence?_eq_none hgone] at h
  cases h

/-- A touch changes no sequence number but by removing the account. -/
theorem Accounts.Touched.sequence?_of_some {before after : Accounts} (h : before.Touched after) {address : Bytes}
    {index n : Int} (hn : after.sequence? address index = some n) : before.sequence? address index = some n := by
  by_cases hkept : address ∈ after.keys
  · rw [← h.sequence?_eq hkept, hn]
  · rw [sequence?_eq_none hkept] at hn
    cases hn

namespace Engine

theorem sequence?_bumpKeys (keys : List StoredKey) (index other : Int) :
    StoredKey.sequence? (bumpKeys index keys) other =
      if other = index then (StoredKey.sequence? keys other).map (· + 1) else StoredKey.sequence? keys other := by
  induction keys with
  | nil => simp [bumpKeys, StoredKey.sequence?]
  | cons k keys ih =>
    unfold bumpKeys
    by_cases hk : k.index = index
    · by_cases ho : other = index
      · simp [hk, ho, StoredKey.sequence?]
      · have hne : ¬index = other := Ne.symm ho
        simp [hk, ho, hne, StoredKey.sequence?]
    · by_cases ho : k.index = other
      · have hne : ¬other = index := ho ▸ hk
        simp [hne, StoredKey.sequence?, ho]
      · simp only [StoredKey.sequence?, hk, if_false, List.find?_cons, ho, decide_false] at ih ⊢
        exact ih

theorem bump_eq_ok {accounts accounts' : Accounts} {address : Bytes} {index : Int}
    (h : bump accounts address index = .ok accounts') :
    ∃ account key, accounts.find? address = some account ∧ account.key? index = some key ∧
      accounts' = accounts.insert address { account with keys := bumpKeys index account.keys } := by
  unfold bump at h
  split at h
  · cases h
  · rename_i account haccount
    split at h
    · cases h
    · rename_i key hkey
      exact ⟨account, key, haccount, hkey, (Except.ok.inj h).symm⟩

theorem map_index_bumpKeys (index : Int) (keys : List StoredKey) :
    (bumpKeys index keys).map StoredKey.index = keys.map StoredKey.index := by
  induction keys with
  | nil => rfl
  | cons k keys ih =>
    unfold bumpKeys
    split
    · rfl
    · rw [List.map_cons, ih, List.map_cons]

theorem stemFrom_of_bump {accounts accounts' : Accounts} {address : Bytes} {index : Int}
    (h : bump accounts address index = .ok accounts') : accounts.StemFrom accounts' := by
  obtain ⟨account, _, haccount, _, rfl⟩ := bump_eq_ok h
  intro other a' ha'
  rw [OrderedMap.find?_insert] at ha'
  split at ha'
  · rename_i hother
    obtain rfl := Option.some.inj ha'
    exact ⟨account, hother ▸ haccount, rfl, map_index_bumpKeys index account.keys⟩
  · exact Accounts.stemFrom_refl accounts other a' ha'

theorem bump_eq_error {accounts : Accounts} {address : Bytes} {index : Int} {error : Error}
    (h : bump accounts address index = .error error) : accounts.sequence? address index = none := by
  unfold bump at h
  split at h
  · rename_i hnone
    simp [Accounts.sequence?, hnone]
  · rename_i account haccount
    split at h
    · rename_i hnone
      simp only [StoredAccount.key?] at hnone
      simp [Accounts.sequence?, StoredKey.sequence?, haccount, hnone]
    · cases h

theorem bump_failure {accounts : Accounts} {address : Bytes} {index : Int} {error : Error}
    (h : bump accounts address index = .error error) : error = .missingEntry ∨ error = .noOperation := by
  unfold bump at h
  split at h
  · exact .inl (Except.error.inj h).symm
  · split at h
    · exact .inr (Except.error.inj h).symm
    · cases h

theorem keys_bump {accounts accounts' : Accounts} {address : Bytes} {index : Int}
    (h : bump accounts address index = .ok accounts') : accounts'.keys = accounts.keys := by
  obtain ⟨account, _, haccount, _, rfl⟩ := bump_eq_ok h
  rw [OrderedMap.keys_insert, if_pos (OrderedMap.mem_keys_iff.mpr ⟨account, haccount⟩)]

theorem sequence?_bump {accounts accounts' : Accounts} {address : Bytes} {index : Int}
    (h : bump accounts address index = .ok accounts') (a : Bytes) (i : Int) :
    accounts'.sequence? a i =
      if a = address ∧ i = index then (accounts.sequence? a i).map (· + 1) else accounts.sequence? a i := by
  obtain ⟨account, _, haccount, _, rfl⟩ := bump_eq_ok h
  unfold Accounts.sequence?
  rw [OrderedMap.find?_insert]
  by_cases ha : address = a
  · subst ha
    simp [haccount, sequence?_bumpKeys]
  · have hne : ¬a = address := Ne.symm ha
    simp [ha, hne]

theorem stemFrom_touched_bump {before left after : Accounts} {proposer : Bytes} {index : Int}
    (htouched : before.Touched left) (hbump : bump left proposer index = .ok after) : before.StemFrom after :=
  htouched.stemFrom.trans (stemFrom_of_bump hbump)

/-- What is current after a run and a bump was so before, but for the number that the bump raised. -/
theorem sequence?_touched_bump {before left after : Accounts} {proposer : Bytes} {index : Int}
    (htouched : before.Touched left) (hbump : bump left proposer index = .ok after) {a : Bytes} {i n : Int}
    (h : after.sequence? a i = some n) :
    if a = proposer ∧ i = index then before.sequence? a i = some (n - 1) else before.sequence? a i = some n := by
  rw [sequence?_bump hbump] at h
  by_cases hkey : a = proposer ∧ i = index
  · rw [if_pos hkey] at h ⊢
    obtain ⟨m, hm, rfl⟩ := Option.map_eq_some_iff.mp h
    rw [Int.add_sub_cancel]
    exact htouched.sequence?_of_some hm
  · rw [if_neg hkey] at h ⊢
    exact htouched.sequence?_of_some h

end Engine

end Signatory
