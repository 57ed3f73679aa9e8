import Signatory.Proofs.Gateway.Replay
import Signatory.Proofs.Ledger.AccountTable

/-! The table of accounts along a run. Accounts may be removed, and a snapshot sets the count of accounts back together
with the table; the next address is new all the same. -/

namespace Signatory.Embedded
set_option autoImplicit false
open Engine (nextAddress)

variable {μ : Type} {G : Embedded μ}

theorem tabled_run (hR : G.engine.runtime.TouchesAccounts) {s : State μ} (hs : G.Starts s) (calls : List Call)
    {l : Ledger} (hl : (G.run s calls).Keeps l) : l.Tabled ∧ l.accountCounter ≤ creations calls := by
  have hkeeps := G.run_keeps (I := fun n l => l.Tabled ∧ l.accountCounter ≤ n)
    (fun n l h => ⟨h.1, Nat.le_succ_of_le h.2⟩)
    (fun n s keys h => ⟨Engine.tabled_createAccount h.1 keys, Nat.succ_le_succ h.2⟩)
    (fun n s admission hadmitted h => by
      obtain ⟨htabled, hcounter⟩ := Engine.tabled_attempt hR (fun x hx => (hadmitted x hx).fits) h.1
      exact ⟨htabled, hcounter ▸ h.2⟩)
    (n := 0) (fun l hl => by
      obtain ⟨service, memory, hstart, rfl⟩ := hs.opened hl
      exact ⟨Engine.tabled_start hstart, Nat.le_of_eq (hs.keeps hl).2⟩) calls l hl
  rwa [Nat.zero_add] at hkeeps

/-- In every ledger of a run each account stands under its own address, that of the service or one of those counted, and
its keys are numbered from zero on. A new account is given the address next in count; no account has it, no stored
transaction was proposed by it, and no other account changes. -/
theorem account_table_kept (hR : G.engine.runtime.TouchesAccounts) {s : State μ} (hs : G.Starts s) {calls : List Call}
    (hcount : creations calls < 2 ^ 63) {l : Ledger} (hl : (G.run s calls).Keeps l) :
    (∀ address a, l.accounts.find? address = some a → a.address = address ∧ Issued l.accountCounter address ∧
      a.keys.map StoredKey.index = (List.range a.keys.length).map Int.ofNat) ∧
    ∀ (c : Client (State μ)) (keys : List AccountKey), c.backend.ledger = l → ∃ address c',
      createAccount keys c = (.ok address, c') ∧ address = Bytes.ofNat Address.size (l.accountCounter + 1) ∧
      l.accounts.find? address = none ∧ (∀ t ∈ l.transactions.values, t.proposer ≠ .bytes address) ∧
      ∀ other a, l.accounts.find? other = some a → c'.backend.ledger.accounts.find? other = some a := by
  obtain ⟨htabled, hcounter⟩ := tabled_run hR hs calls hl
  constructor
  · intro address a ha
    have hmem : address ∈ l.accounts.keys := OrderedMap.mem_keys_iff.mpr ⟨a, ha⟩
    exact ⟨htabled.address address a ha, htabled.issued address hmem, htabled.numbered address a ha⟩
  · rintro c keys rfl
    obtain ⟨hunused, hproposers, hkept⟩ := Engine.fresh_createAccount (s := c.backend.engine) htabled
      (Nat.lt_of_le_of_lt hcounter hcount) (keys.map rawKey)
    exact ⟨nextAddress c.backend.ledger, _, rfl, rfl, hunused, hproposers, hkept⟩

/-- A transaction removes all accounts but that of the service. -/
def banishing : Runtime Unit where
  execute _ l m :=
    (.done [], (l.accounts.find? Engine.serviceAddress).elim .empty (OrderedMap.empty.insert Engine.serviceAddress), m)
  evaluate _ _ l m := (.done Runtime.void, l, m)

theorem banishing_touchesAccounts : banishing.TouchesAccounts := by
  intro t l m emitted accounts m' h
  obtain ⟨_, rfl, _⟩ : [] = emitted ∧ (l.accounts.find? Engine.serviceAddress).elim .empty
      (OrderedMap.empty.insert Engine.serviceAddress) = accounts ∧ m = m' := by simpa [banishing] using h
  intro address a ha
  cases hservice : l.accounts.find? Engine.serviceAddress with
  | none =>
    rw [hservice] at ha
    cases ha
  | some service =>
    rw [hservice, Option.elim_some, OrderedMap.find?_insert] at ha
    split at ha
    · rename_i haddress
      obtain rfl := Option.some.inj ha
      exact ⟨service, haddress ▸ hservice, service.touched_refl⟩
    · cases ha

/-- Accounts that are made, kept, removed, made anew and brought back. -/
def banishedCalls : List Call :=
  [⟨.start (), .createAccount []⟩, ⟨.start (), .createSnapshot "both"⟩,
    ⟨.start (), .submit (serviceEnvelope banishing 0)⟩, ⟨.start (), .createAccount []⟩,
    ⟨.start (), .loadSnapshot "both"⟩]

theorem account_table_kept_banished :
    let s := (trusting banishing).run (trustingStart banishing ()) banishedCalls
    banishing.TouchesAccounts ∧ (trusting banishing).Starts (trustingStart banishing ()) ∧
    creations banishedCalls < 2 ^ 63 ∧
    ((trusting banishing).run (trustingStart banishing ()) (banishedCalls.take 4)).ledger.accounts.keys =
      [Engine.serviceAddress, [0, 0, 0, 0, 0, 0, 0, 2]] ∧
    s.ledger.accounts.keys = [Engine.serviceAddress, [0, 0, 0, 0, 0, 0, 0, 1]] ∧
    ∃ address c', createAccount [] (Client.start s) = (.ok address, c') ∧ address = [0, 0, 0, 0, 0, 0, 0, 2] ∧
      ∀ other a, s.ledger.accounts.find? other = some a → c'.backend.ledger.accounts.find? other = some a := by
  have hs : (trusting banishing).Starts (trustingStart banishing ()) := ⟨nobodysKey, (), rfl, rfl⟩
  have hcount : creations banishedCalls < 2 ^ 63 := by decide
  have hcounter : ((trusting banishing).run (trustingStart banishing ()) banishedCalls).ledger.accountCounter = 1 := by
    decide +kernel
  obtain ⟨_, hnext⟩ := account_table_kept (G := trusting banishing) banishing_touchesAccounts hs hcount .live
  obtain ⟨address, c', hcreated, haddress, _, _, hkept⟩ := hnext (Client.start _) [] rfl
  rw [hcounter] at haddress
  exact ⟨banishing_touchesAccounts, hs, hcount, by decide +kernel, by decide +kernel, address, c', hcreated, haddress,
    hkept⟩

end Signatory.Embedded
