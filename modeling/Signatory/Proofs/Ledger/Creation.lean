import Signatory.Proofs.Ledger.Accounts
import Signatory.Proofs.Bytes

/-! New accounts: their keys are numbered by the places in which they were given, from zero on, and no other account is
touched. -/

namespace Signatory
set_option autoImplicit false

/-- An address that an account has been given: that of the service, or one of those counted. -/
def Issued (counter : Nat) (address : Bytes) : Prop :=
  address = Engine.serviceAddress ∨ ∃ i, 1 ≤ i ∧ i ≤ counter ∧ address = Bytes.ofNat Address.size i

theorem Issued.mono {m n : Nat} {address : Bytes} (h : Issued m address) (hmn : m ≤ n) : Issued n address := by
  rcases h with h | ⟨i, hi, him, h⟩
  · exact .inl h
  · exact .inr ⟨i, hi, Nat.le_trans him hmn, h⟩

namespace Engine

/-- A key as it is registered at a place. -/
def keyRecord (place : Nat) (k : RawKey) : StoredKey where
  index := place
  publicKey := k.publicKey
  algorithm := k.algorithm
  hash := k.hash

theorem getElem?_keysFrom (keys : List RawKey) (position i : Nat) :
    (keysFrom position keys)[i]? = keys[i]?.map (keyRecord (position + i)) := by
  induction keys generalizing position i with
  | nil => rfl
  | cons k keys ih =>
    cases i with
    | zero => rfl
    | succ i =>
      rw [keysFrom, List.getElem?_cons_succ, List.getElem?_cons_succ, ih, Nat.succ_add_eq_add_succ]

theorem map_index_keysFrom (keys : List RawKey) (position : Nat) :
    (keysFrom position keys).map StoredKey.index = (List.range' position keys.length).map Int.ofNat := by
  induction keys generalizing position with
  | nil => rfl
  | cons k keys ih =>
    rw [keysFrom, List.map_cons, ih, List.length_cons, List.range'_succ, List.map_cons]
    rfl

theorem mem_keysFrom {keys : List RawKey} {r : StoredKey} :
    r ∈ keysFrom 0 keys ↔ ∃ i k, keys[i]? = some k ∧ r = keyRecord i k := by
  rw [List.mem_iff_getElem?]
  constructor
  · rintro ⟨i, hi⟩
    rw [getElem?_keysFrom, Nat.zero_add] at hi
    obtain ⟨k, hk, rfl⟩ := Option.map_eq_some_iff.mp hi
    exact ⟨i, k, hk, rfl⟩
  · rintro ⟨i, k, hk, rfl⟩
    refine ⟨i, ?_⟩
    rw [getElem?_keysFrom, hk, Nat.zero_add, Option.map_some]

theorem find?_keysFrom (keys : List RawKey) (position i : Nat) :
    (keysFrom position keys).find? (fun k => decide (k.index = Int.ofNat (position + i))) =
      keys[i]?.map (keyRecord (position + i)) := by
  induction keys generalizing position i with
  | nil => rfl
  | cons k keys ih =>
    rw [keysFrom, List.find?_cons]
    cases i with
    | zero => simp [keyRecord]
    | succ i =>
      have hne : ¬(position : Int) = Int.ofNat (position + (i + 1)) := by
        intro h
        have := Int.ofNat_inj.mp h
        omega
      have hrest := ih (position + 1) i
      rw [Nat.succ_add_eq_add_succ] at hrest
      simp only [hne, decide_false]
      rw [hrest, List.getElem?_cons_succ]

/-- The account that is registered under an address. -/
def newAccount (address : Bytes) (keys : List RawKey) : StoredAccount := { address, keys := keysFrom 0 keys }

theorem key?_newAccount (address : Bytes) (keys : List RawKey) (i : Nat) :
    (newAccount address keys).key? i = keys[i]?.map (keyRecord i) := by
  have hfind := find?_keysFrom keys 0 i
  rwa [Nat.zero_add] at hfind

/-- The key of an index stands in the place that the index names. -/
theorem key?_newAccount_eq_some {address : Bytes} {keys : List RawKey} {index : Int} {r : StoredKey}
    (h : (newAccount address keys).key? index = some r) :
    ∃ i k, index = Int.ofNat i ∧ keys[i]? = some k ∧ r = keyRecord i k := by
  obtain ⟨i, k, hk, rfl⟩ := mem_keysFrom.mp (List.mem_of_find?_eq_some h)
  have hindex : decide ((keyRecord i k).index = index) = true :=
    List.find?_some (p := fun k : StoredKey => decide (k.index = index)) h
  exact ⟨i, k, (of_decide_eq_true hindex).symm, hk, rfl⟩

variable {μ : Type} {s : State μ} {keys : List RawKey}

/-- The address that the next account is given. -/
def nextAddress (l : Ledger) : Bytes := Bytes.ofNat Address.size (l.accountCounter + 1)

theorem find?_createAccount (address : Bytes) : (createAccount s keys).2.ledger.accounts.find? address =
    if nextAddress s.ledger = address then some (newAccount address keys) else s.ledger.accounts.find? address := by
  have hinsert : (createAccount s keys).2.ledger.accounts =
      s.ledger.accounts.insert (nextAddress s.ledger) (newAccount (nextAddress s.ledger) keys) := rfl
  rw [hinsert, OrderedMap.find?_insert]
  split
  · rename_i haddress
    rw [haddress]
  · rfl

theorem issued_nextAddress (l : Ledger) : Issued (l.accountCounter + 1) (nextAddress l) :=
  .inr ⟨l.accountCounter + 1, Nat.le_add_left 1 _, Nat.le_refl _, rfl⟩

/-- The next address is new. -/
theorem not_issued_next {l : Ledger} (h : l.accountCounter < 2 ^ 63) : ¬Issued l.accountCounter (nextAddress l) := by
  rintro (hservice | ⟨i, _, hi, hnext⟩)
  · have hnumber : serviceAddress = Bytes.ofNat Address.size 0xF8D6E0586B0A20C7 := rfl
    rw [hnumber] at hservice
    have := Bytes.ofNat_inj (by unfold Address.size; omega) (by unfold Address.size; omega) hservice
    omega
  · have := Bytes.ofNat_inj (by unfold Address.size; omega) (by unfold Address.size; omega) hnext
    omega

theorem issued_createAccount (keys : List RawKey)
    (h : ∀ a ∈ s.ledger.accounts.keys, Issued s.ledger.accountCounter a) :
    ∀ a ∈ (createAccount s keys).2.ledger.accounts.keys, Issued (createAccount s keys).2.ledger.accountCounter a := by
  intro a ha
  rcases OrderedMap.mem_keys_insert.mp ha with hold | rfl
  · exact (h a hold).mono (Nat.le_succ _)
  · exact issued_nextAddress s.ledger

theorem toNat_nextAddress {l : Ledger} (h : l.accountCounter < 2 ^ 63) :
    (nextAddress l).toNat = l.accountCounter + 1 := by
  apply Bytes.toNat_ofNat
  unfold Address.size
  omega

end Engine

end Signatory
