import Signatory.Proofs.Lists
import Signatory.Proofs.Ledger.Creation
import Signatory.Proofs.Ledger.Naming
import Signatory.Proofs.Ledger.WellBehaved

/-! Sequence numbers of stored transactions. Those that one key proposed bear increasing numbers below its current
one; with a clock that always answers they bear all of these. -/

namespace Signatory
set_option autoImplicit false
open Cbor (Value)

namespace LooseTransaction

def proposedBy (address : Bytes) (index : Int) (t : LooseTransaction) : Bool :=
  bytes? t.proposer = some address && t.keyIndex = index

/-- The transaction bears a sequence number. -/
def Bears (t : LooseTransaction) (n : Nat) : Prop := (.int n == t.sequenceNumber) = true

/-- Two transactions bear one sequence number of one key. -/
def sameNumber (t u : LooseTransaction) : Bool :=
  t.proposer == u.proposer && t.keyIndex == u.keyIndex && t.sequenceNumber == u.sequenceNumber

theorem proposedBy_iff {address : Bytes} {index : Int} {t : LooseTransaction} :
    t.proposedBy address index = true ↔ t.proposer = .bytes address ∧ t.keyIndex = index := by
  have hbytes : bytes? t.proposer = some address ↔ t.proposer = .bytes address := by
    cases t.proposer <;> simp [bytes?]
  simp [proposedBy, hbytes]

end LooseTransaction

/-- The stored transactions as the blocks list them. -/
def Ledger.inBlockOrder (l : Ledger) : List LooseTransaction :=
  l.blocks.flatMap fun b => b.collections.flatMap fun c =>
    ((l.collections.find? c).getD []).filterMap l.transactions.find?

namespace Engine

variable {μ : Type} (E : Engine μ)

/-- The numbers of stored transactions, against the current number of their key: they are below it, and none is left
out unless the clock has failed. -/
def Current (ns : List Nat) (current : Int) : Prop :=
  ∃ n : Nat, current = n ∧ (∀ k ∈ ns, k < n) ∧ ((∀ reading, ∃ time, E.clock reading = .ok time) → ns = List.range n)

/-- The order that replay protection keeps in a ledger. -/
structure Orderly (l : Ledger) : Prop where
  accounts : ∀ a ∈ l.accounts.keys, Issued l.accountCounter a
  proposers : ∀ t ∈ l.transactions.values, ∃ a, t.proposer = .bytes a ∧ Issued l.accountCounter a
  numbers : ∀ address index, ∃ ns : List Nat,
    List.Forall₂ LooseTransaction.Bears (l.transactions.values.filter (·.proposedBy address index)) ns ∧
    ns.Pairwise (· < ·) ∧ ∀ n, l.accounts.sequence? address index = some n → E.Current ns n
  blocks : l.blocks.flatMap StoredBlock.collections = l.transactions.keys.map E.collectionId
  collections : ∀ id ∈ l.transactions.keys, ∃ other ∈ l.transactions.keys,
    l.collections.find? (E.collectionId id) = some [other] ∧ E.collectionId other = E.collectionId id

variable {E}

theorem Current.concat {ns : List Nat} {n : Nat} (h : E.Current ns n) : E.Current (ns ++ [n]) (n + 1) := by
  obtain ⟨m, hm, hlt, hall⟩ := h
  obtain rfl : n = m := Int.ofNat_inj.mp hm
  refine ⟨n + 1, by simp, ?_, ?_⟩
  · intro k hk
    rcases List.mem_append.mp hk with hk | hk
    · exact Nat.lt_succ_of_lt (hlt k hk)
    · obtain rfl := List.mem_singleton.mp hk
      exact Nat.lt_succ_self k
  · intro hclock
    rw [hall hclock, List.range_succ]

theorem Current.skip {ns : List Nat} {n : Int} (h : E.Current ns n) {reading : Nat} {error : Error}
    (hclock : E.clock reading = .error error) : E.Current ns (n + 1) := by
  obtain ⟨m, rfl, hlt, _⟩ := h
  refine ⟨m + 1, by simp, fun k hk => Nat.lt_succ_of_lt (hlt k hk), ?_⟩
  intro hall
  obtain ⟨time, htime⟩ := hall reading
  rw [hclock] at htime
  cases htime

theorem sequence?_keysFrom {position : Nat} {keys : List RawKey} {index n : Int}
    (h : StoredKey.sequence? (keysFrom position keys) index = some n) : n = 0 := by
  induction keys generalizing position with
  | nil => cases h
  | cons k keys ih =>
    simp only [StoredKey.sequence?, keysFrom, List.find?_cons] at h
    split at h
    · exact (Option.some.inj h).symm
    · exact ih h

theorem current_zero {n : Int} (h : n = 0) : E.Current [] n := ⟨0, h, by simp, fun _ => rfl⟩

/-- At first there is the account of the service only. -/
theorem account_of_start {service : RawKey} {memory : μ} {s : State μ} (h : E.start service memory = .ok s)
    {address : Bytes} {a : StoredAccount} (ha : s.ledger.accounts.find? address = some a) :
    address = serviceAddress ∧ a = newAccount serviceAddress [service] := by
  obtain ⟨time, hledger⟩ := start_eq_ok h
  rw [hledger, OrderedMap.find?_insert] at ha
  split at ha
  · rename_i haddress
    exact ⟨haddress.symm, (Option.some.inj ha).symm⟩
  · cases ha

theorem orderly_start {service : RawKey} {memory : μ} {s : State μ} (h : E.start service memory = .ok s) :
    E.Orderly s.ledger := by
  obtain ⟨time, hledger⟩ := start_eq_ok h
  rw [hledger]
  constructor
  · intro a ha
    exact .inl (List.mem_singleton.mp ha)
  · intro t ht
    cases ht
  · intro address index
    refine ⟨[], .nil, .nil, fun n hn => current_zero ?_⟩
    obtain ⟨a, ha, hn⟩ := Option.bind_eq_some_iff.mp hn
    obtain ⟨_, rfl⟩ := account_of_start h (hledger ▸ ha)
    exact sequence?_keysFrom hn
  · rfl
  · intro id hid
    cases hid

/-- The address of a new account has never proposed anything. -/
theorem Orderly.createAccount {s : State μ} (h : E.Orderly s.ledger) (keys : List RawKey)
    (hlt : s.ledger.accountCounter < 2 ^ 63) : E.Orderly (createAccount s keys).2.ledger := by
  have hnew := not_issued_next hlt
  constructor
  · exact issued_createAccount keys h.accounts
  · intro t ht
    obtain ⟨a, ha, hissued⟩ := h.proposers t ht
    exact ⟨a, ha, hissued.mono (Nat.le_succ _)⟩
  · intro address index
    obtain ⟨ns, hall, hsorted, hns⟩ := h.numbers address index
    refine ⟨ns, hall, hsorted, fun n hn => ?_⟩
    obtain ⟨a, ha, hn⟩ := Option.bind_eq_some_iff.mp hn
    rw [find?_createAccount] at ha
    split at ha
    · rename_i haddress
      obtain rfl := Option.some.inj ha
      have hnone : s.ledger.transactions.values.filter (·.proposedBy address index) = [] := by
        rw [List.filter_eq_nil_iff]
        intro t ht hproposed
        obtain ⟨b, hb, hissued⟩ := h.proposers t ht
        rw [(LooseTransaction.proposedBy_iff.mp hproposed).1, Value.bytes.injEq] at hb
        exact hnew (haddress ▸ hb ▸ hissued)
      rw [hnone, List.forall₂_nil_left_iff] at hall
      rw [hall]
      exact current_zero (sequence?_keysFrom hn)
    · exact hns n (Option.bind_eq_some_iff.mpr ⟨a, ha, hn⟩)
  · exact h.blocks
  · exact h.collections

/-- A bump without a time leaves a gap. -/
theorem Orderly.skipped {l : Ledger} {left accounts : Accounts} {proposer : Bytes} {index : Int} {reading : Nat}
    {error : Error} (h : E.Orderly l) (htouched : l.accounts.Touched left)
    (hbump : bump left proposer index = .ok accounts) (hclock : E.clock reading = .error error) :
    E.Orderly { l with accounts } where
  accounts a ha := h.accounts a ((stemFrom_touched_bump htouched hbump).mem_keys ha)
  proposers := h.proposers
  numbers address i := by
    obtain ⟨ns, hbears, hsorted, hcurrent⟩ := h.numbers address i
    refine ⟨ns, hbears, hsorted, fun n hn => ?_⟩
    have hbefore := sequence?_touched_bump htouched hbump hn
    split at hbefore
    · have hskip := (hcurrent _ hbefore).skip hclock
      rwa [Int.sub_add_cancel] at hskip
    · exact hcurrent n hbefore
  blocks := h.blocks
  collections := h.collections

section Sealed

variable {l : Ledger} {x : Admission} {left accounts : Accounts}

/-- The number that a transaction bears is the next one of its key; no other key has a new number. -/
theorem Orderly.numbers_concat (h : E.Orderly l) (hfits : x.Fits l) (htouched : l.accounts.Touched left)
    (hbump : bump left x.proposer x.transaction.keyIndex = .ok accounts) (address : Bytes) (index : Int) :
    ∃ ns : List Nat,
      List.Forall₂ LooseTransaction.Bears
        ((l.transactions.values ++ [x.transaction]).filter (·.proposedBy address index)) ns ∧
      ns.Pairwise (· < ·) ∧ ∀ n, accounts.sequence? address index = some n → E.Current ns n := by
  obtain ⟨current, hcurrent, hbears⟩ := hfits.sequence
  obtain ⟨ns, hall, hsorted, hns⟩ := h.numbers address index
  rw [List.filter_append]
  by_cases hkey : address = x.proposer ∧ index = x.transaction.keyIndex
  · obtain ⟨rfl, rfl⟩ := hkey
    obtain ⟨n, rfl, hlt, _⟩ := id (hns _ hcurrent)
    have hproposed : x.transaction.proposedBy x.proposer x.transaction.keyIndex = true :=
      LooseTransaction.proposedBy_iff.mpr ⟨hfits.proposer, rfl⟩
    refine ⟨ns ++ [n], ?_, ?_, ?_⟩
    · rw [List.filter_singleton, hproposed]
      exact List.rel_append hall (.cons hbears .nil)
    · refine List.pairwise_append.mpr ⟨hsorted, List.pairwise_singleton _ _, ?_⟩
      intro k hk m hm
      rw [List.mem_singleton.mp hm]
      exact hlt k hk
    · intro n' hn'
      have hbefore := sequence?_touched_bump htouched hbump hn'
      rw [if_pos ⟨rfl, rfl⟩, hcurrent] at hbefore
      obtain rfl : n' = n + 1 := by have := Option.some.inj hbefore; omega
      exact (hns _ hcurrent).concat
  · have hother : x.transaction.proposedBy address index = false := by
      rw [← Bool.not_eq_true, LooseTransaction.proposedBy_iff, hfits.proposer]
      rintro ⟨haddress, hindex⟩
      exact hkey ⟨(Value.bytes.inj haddress).symm, hindex.symm⟩
    refine ⟨ns, ?_, hsorted, fun n hn => ?_⟩
    · simpa [List.filter_singleton, hother] using hall
    · have hbefore := sequence?_touched_bump htouched hbump hn
      rw [if_neg hkey] at hbefore
      exact hns n hbefore

theorem Orderly.sealed (h : E.Orderly l) (hfits : x.Fits l) (htouched : l.accounts.Touched left)
    (hbump : bump left x.proposer x.transaction.keyIndex = .ok accounts)
    (time : Moment) (events : List StoredEvent) (message : Text) :
    E.Orderly (E.sealed l x accounts time events message) := by
  obtain ⟨hkeys, hvalues⟩ := transactions_sealed (E := E) hfits.fresh accounts time events message
  constructor
  · intro a ha
    exact h.accounts a ((stemFrom_touched_bump htouched hbump).mem_keys ha)
  · exact proposers_sealed hfits h.accounts h.proposers accounts time events message
  · rw [hvalues]
    exact h.numbers_concat hfits htouched hbump
  · have hblocks : (E.sealed l x accounts time events message).blocks.flatMap StoredBlock.collections =
        l.blocks.flatMap StoredBlock.collections ++ [E.collectionId x.id] := by
      simp [Engine.sealed, nextBlock]
    rw [hblocks, hkeys, h.blocks, List.map_append, List.map_singleton]
  · intro id hid
    have hfind : (E.sealed l x accounts time events message).collections.find? (E.collectionId id) =
        if E.collectionId x.id = E.collectionId id then some [x.id] else l.collections.find? (E.collectionId id) :=
      OrderedMap.find?_insert _ _ _ _
    rw [hkeys] at hid ⊢
    rw [hfind]
    by_cases hsame : E.collectionId x.id = E.collectionId id
    · -- The new collection takes the place of one of the same name.
      exact ⟨x.id, by simp, if_pos hsame, hsame⟩
    · rw [if_neg hsame]
      rcases List.mem_append.mp hid with hid | hid
      · obtain ⟨other, hother, hfind, hcollection⟩ := h.collections id hid
        exact ⟨other, List.mem_append_left _ hother, hfind, hcollection⟩
      · exact absurd (congrArg E.collectionId (List.mem_singleton.mp hid).symm) hsame

end Sealed

/-- Stored transactions stand in the blocks in the order in which they were stored, each once. -/
theorem Orderly.inBlockOrder_eq {l : Ledger} (h : E.Orderly l)
    (hfree : E.suite.CollisionFree fun p => ∃ id ∈ l.transactions.keys, p = collectionPreimage id) :
    l.inBlockOrder = l.transactions.values := by
  have hmembers : ∀ id ∈ l.transactions.keys,
      ((l.collections.find? (E.collectionId id)).getD []).filterMap l.transactions.find? =
        [id].filterMap l.transactions.find? := by
    intro id hid
    obtain ⟨other, hother, hfind, hcollection⟩ := h.collections id hid
    obtain rfl := collectionPreimage_inj (hfree _ _ ⟨other, hother, rfl⟩ ⟨id, hid, rfl⟩ hcollection)
    rw [hfind, Option.getD_some]
  unfold Ledger.inBlockOrder
  rw [← List.flatMap_assoc, h.blocks, List.flatMap_map, List.flatMap_congr hmembers, ← List.filterMap_flatMap,
    List.flatMap_singleton', OrderedMap.filterMap_find?_keys]

/-- Transactions that bear increasing numbers bear different ones. -/
theorem pairwise_of_bears {ts : List LooseTransaction} {ns : List Nat} (h : List.Forall₂ LooseTransaction.Bears ts ns)
    (hsorted : ns.Pairwise (· < ·)) : ts.Pairwise fun t u => (t.sequenceNumber == u.sequenceNumber) = false := by
  induction h with
  | nil => exact .nil
  | @cons t n ts ns hn hall ih =>
    obtain ⟨hfirst, hrest⟩ := List.pairwise_cons.mp hsorted
    refine List.pairwise_cons.mpr ⟨fun u hu => ?_, ih hrest⟩
    obtain ⟨m, hm, hbears⟩ := Lists.exists_of_mem_right hall.flip hu
    rw [← Bool.not_eq_true, Value.alike_of_int_alike hn hbears, Int.ofNat_inj]
    exact Nat.ne_of_lt (hfirst m hm)

theorem Orderly.pairwise_not_sameNumber {l : Ledger} (h : E.Orderly l) :
    l.transactions.values.Pairwise fun t u => t.sameNumber u = false := by
  rw [List.pairwise_iff_forall_sublist]
  intro t u hsub
  obtain ⟨a, ha, _⟩ := h.proposers t (hsub.subset List.mem_cons_self)
  obtain ⟨b, hb, _⟩ := h.proposers u (hsub.subset (List.mem_cons_of_mem t List.mem_cons_self))
  rw [← Bool.not_eq_true]
  intro hsame
  simp only [LooseTransaction.sameNumber, ha, hb, Bool.and_eq_true, beq_iff_eq] at hsame
  obtain ⟨⟨haddress, hindex⟩, hnumber⟩ := hsame
  obtain rfl : a = b := beq_iff_eq.mp (show (a == b) = true from haddress)
  obtain ⟨ns, hall, hsorted, _⟩ := h.numbers a t.keyIndex
  have hboth : [t, u].filter (·.proposedBy a t.keyIndex) = [t, u] := by
    simp [LooseTransaction.proposedBy_iff.mpr ⟨ha, rfl⟩, LooseTransaction.proposedBy_iff.mpr ⟨hb, hindex.symm⟩]
  have hkept := hsub.filter (LooseTransaction.proposedBy a t.keyIndex)
  rw [hboth] at hkept
  have hpair := List.pairwise_iff_forall_sublist.mp (pairwise_of_bears hall hsorted) hkept
  rw [hnumber] at hpair
  cases hpair

end Engine

end Signatory
