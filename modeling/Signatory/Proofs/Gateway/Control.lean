import Mathlib.Data.List.Perm.Subperm
import Signatory.Proofs.Gateway.Run
import Signatory.Proofs.Ledger.Creation

/-! Who controls a new account. Its keys are numbered by the places in which they were given, and not by the indices that
they bear; so those who gave them control it as far as places and indices agree. -/

namespace Signatory.Embedded
set_option autoImplicit false
open Engine (RawKey keyRecord newAccount nextAddress)

/-- What an account has for a key that it was created with. -/
structure Registers (k : AccountKey) (r : KeyRecord) : Prop where
  publicKey : r.publicKey = k.signer.publicKey
  algorithm : r.algorithm = k.algorithm
  hash : r.hash = k.hash
  sequenceNumber : r.sequenceNumber = 0
  revoked : r.revoked = false

/-- An account that has the given keys, each under its index, and no others. -/
structure Controlled (a : AccountRecord) (keys : List AccountKey) : Prop where
  given : ∀ k ∈ keys, ∃ r, a.key? k.index = some r ∧ Registers k r
  only : ∀ r ∈ a.keys, ∃ k ∈ keys, r.index = k.index

/-- In the place that the index of a key names stands that key, or one with the same public key and algorithms. -/
def InPlace (keys : List AccountKey) (k : AccountKey) : Prop :=
  ∃ (i : Nat) (j : AccountKey), k.index = Int.ofNat i ∧ keys[i]? = some j ∧ rawKey j = rawKey k

theorem registers_iff {i : Nat} {raw : RawKey} {k : AccountKey} :
    Registers k (keyRecord i raw).toRecord ↔ raw = rawKey k := by
  constructor
  · intro h
    obtain ⟨publicKey, algorithm, hash⟩ := raw
    obtain rfl : publicKey = k.signer.publicKey := h.publicKey
    obtain rfl : algorithm = k.algorithm := h.algorithm
    obtain rfl : hash = k.hash := h.hash
    rfl
  · rintro rfl
    exact ⟨rfl, rfl, rfl, rfl, rfl⟩

section

variable {keys : List AccountKey} {address : Bytes}

theorem given_iff {k : AccountKey} :
    (∃ r, (newAccount address (keys.map rawKey)).toRecord.key? k.index = some r ∧ Registers k r) ↔ InPlace keys k := by
  rw [StoredAccount.key?_toRecord]
  constructor
  · rintro ⟨_, htold, hregisters⟩
    obtain ⟨r, hr, rfl⟩ := Option.map_eq_some_iff.mp htold
    obtain ⟨i, raw, hindex, hraw, rfl⟩ := Engine.key?_newAccount_eq_some hr
    rw [List.getElem?_map] at hraw
    obtain ⟨j, hj, rfl⟩ := Option.map_eq_some_iff.mp hraw
    exact ⟨i, j, hindex, hj, registers_iff.mp hregisters⟩
  · rintro ⟨i, j, hindex, hj, hsame⟩
    have hkey := Engine.key?_newAccount address (keys.map rawKey) i
    rw [List.getElem?_map, hj, Option.map_some, Option.map_some] at hkey
    exact ⟨_, Option.map_eq_some_iff.mpr ⟨keyRecord i (rawKey j), hindex ▸ hkey, rfl⟩, registers_iff.mpr hsame⟩

/-- Distinct indices that all name places of the list name all places of it. -/
theorem exists_index_of_inPlace (hdistinct : (keys.map AccountKey.index).Nodup) (hplace : ∀ k ∈ keys, InPlace keys k)
    {i : Nat} (hi : i < keys.length) : ∃ k ∈ keys, k.index = Int.ofNat i := by
  have hsubset : keys.map AccountKey.index ⊆ (List.range keys.length).map Int.ofNat := by
    intro index hindex
    obtain ⟨k, hk, rfl⟩ := List.mem_map.mp hindex
    obtain ⟨n, j, hn, hj, _⟩ := hplace k hk
    have hlt := (List.getElem?_eq_some_iff.mp hj).1
    exact List.mem_map.mpr ⟨n, List.mem_range.mpr hlt, hn.symm⟩
  have hperm := (hdistinct.subperm hsubset).perm_of_length_le (by simp)
  have hmem := hperm.mem_iff.mpr (List.mem_map_of_mem (List.mem_range.mpr hi))
  exact List.mem_map.mp hmem

theorem controlled_iff (hdistinct : (keys.map AccountKey.index).Nodup) :
    Controlled (newAccount address (keys.map rawKey)).toRecord keys ↔ ∀ k ∈ keys, InPlace keys k := by
  constructor
  · intro h k hk
    exact given_iff.mp (h.given k hk)
  · intro hplace
    refine ⟨fun k hk => given_iff.mpr (hplace k hk), ?_⟩
    intro r hr
    obtain ⟨stored, hstored, rfl⟩ := List.mem_map.mp hr
    obtain ⟨i, raw, hraw, rfl⟩ := Engine.mem_keysFrom.mp hstored
    have hi : i < keys.length := by
      have := (List.getElem?_eq_some_iff.mp hraw).1
      rwa [List.length_map] at this
    obtain ⟨k, hk, hindex⟩ := exists_index_of_inPlace hdistinct hplace hi
    exact ⟨k, hk, hindex.symm⟩

end

variable {μ : Type} (G : Embedded μ)

/-- Under the index of a key of an account, signatures are checked against that key. -/
def ChecksAgainst (l : Ledger) (address : Bytes) (k : AccountKey) : Prop :=
  ∀ message signature, G.engine.checkSignature l message address k.index signature =
    if verifySignature G.engine.suite k.signer.publicKey k.algorithm k.hash message signature then .ok ()
    else .error (.badSignature address k.index)

variable {G}

theorem checksAgainst_of_registers {l : Ledger} {address : Bytes} {a : StoredAccount} {k : AccountKey} {r : KeyRecord}
    (ha : l.accounts.find? address = some a) (hr : a.toRecord.key? k.index = some r) (h : Registers k r) :
    G.ChecksAgainst l address k := by
  intro message signature
  rw [StoredAccount.key?_toRecord] at hr
  obtain ⟨stored, hstored, rfl⟩ := Option.map_eq_some_iff.mp hr
  have hcurrent : stored.revoked = false := h.revoked
  have hkey : (l.key? address k.index).filter (!·.revoked) = some stored := by
    rw [Ledger.key?, ha, Option.bind_some, hstored, Option.filter_some, hcurrent]
    rfl
  rw [Engine.checkSignature, hkey]
  simp only [← h.publicKey, ← h.algorithm, ← h.hash]
  rfl

variable (G)

/-- A new account is had at once under its address, the next number in eight bytes. Each key controls it under its own
index exactly when the indices are those of the places in which the keys, or their likes, are given. -/
theorem account_controlled_iff (c : Client (State μ)) (keys : List AccountKey)
    (hcounter : c.backend.ledger.accountCounter < 2 ^ 63) (hdistinct : (keys.map AccountKey.index).Nodup) :
    ∃ address c' a, createAccount keys c = (.ok address, c') ∧ (G.gateway.account address c').1 = .ok a ∧
      address.toNat = c.backend.ledger.accountCounter + 1 ∧
      (Controlled a keys ∧ (∀ k ∈ keys, G.ChecksAgainst c'.backend.ledger address k) ↔ ∀ k ∈ keys, InPlace keys k) := by
  have hfind : (Engine.createAccount c.backend.engine (keys.map rawKey)).2.ledger.accounts.find?
      (nextAddress c.backend.ledger) = some (newAccount (nextAddress c.backend.ledger) (keys.map rawKey)) := by
    rw [Engine.find?_createAccount]
    exact if_pos rfl
  refine ⟨_, _, (newAccount (nextAddress c.backend.ledger) (keys.map rawKey)).toRecord, rfl, ?_,
    Engine.toNat_nextAddress hcounter, ?_⟩
  · exact congrArg (StoredAccount.toRecord <$> ·) (Engine.reject_eq_ok.mpr (Engine.account_eq_ok.mpr hfind))
  · rw [← controlled_iff hdistinct]
    constructor
    · rintro ⟨hcontrolled, _⟩
      exact hcontrolled
    · intro hcontrolled
      refine ⟨hcontrolled, ?_⟩
      intro k hk
      obtain ⟨r, hr, hregisters⟩ := hcontrolled.given k hk
      exact checksAgainst_of_registers hfind hr hregisters

/-- A key whose signer refuses to sign. -/
def silentKey (index : Int) : AccountKey where
  index := index
  signer := ⟨nobodysKey.publicKey, none, fun _ => .error []⟩
  algorithm := nobodysKey.algorithm
  hash := nobodysKey.hash

/-- Two keys alike, given in the order of their indices or in the other one. -/
theorem account_controlled_pair : ∃ address c' a,
    createAccount [silentKey 1, silentKey 0] (Client.start (trustingStart Runtime.null ())) = (.ok address, c') ∧
    ((trusting Runtime.null).gateway.account address c').1 = .ok a ∧
    Controlled a [silentKey 1, silentKey 0] := by
  have hdistinct : ([silentKey 1, silentKey 0].map AccountKey.index).Nodup := by decide
  obtain ⟨address, c', a, hcreated, haccount, _, hiff⟩ := account_controlled_iff (trusting Runtime.null)
    (Client.start (trustingStart Runtime.null ())) [silentKey 1, silentKey 0] (by decide) hdistinct
  refine ⟨address, c', a, hcreated, haccount, (hiff.mpr ?_).1⟩
  intro k hk
  rcases List.mem_pair.mp hk with rfl | rfl
  · exact ⟨1, silentKey 0, rfl, rfl, rfl⟩
  · exact ⟨0, silentKey 1, rfl, rfl, rfl⟩

/-- The only key of an account, if it bears the index 1, is registered under the index 0, and no signature under its
own index counts. -/
theorem account_uncontrolled : ∃ address c' a,
    createAccount [silentKey 1] (Client.start (trustingStart Runtime.null ())) = (.ok address, c') ∧
    ((trusting Runtime.null).gateway.account address c').1 = .ok a ∧
    ¬Controlled a [silentKey 1] ∧ a.key? 0 = some (keyRecord 0 (rawKey (silentKey 1))).toRecord ∧
    ∀ message signature, (trusting Runtime.null).engine.checkSignature c'.backend.ledger message address 1 signature =
      .error (.unknownSigner address 1) := by
  refine ⟨_, _, (newAccount (nextAddress (trustingStart Runtime.null ()).ledger) [rawKey (silentKey 1)]).toRecord, rfl, rfl,
    ?_, rfl, fun _ _ => rfl⟩
  intro h
  obtain ⟨r, hr, _⟩ := h.given (silentKey 1) (List.mem_singleton_self _)
  cases hr

end Signatory.Embedded
