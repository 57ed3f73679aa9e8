import Signatory.Proofs.Gateway.Run
import Signatory.Proofs.Ledger.Replay

/-! Replay protection along a run: no sequence number of a key is used twice, and none is left out. -/

namespace Signatory.Embedded
set_option autoImplicit false
open LooseTransaction (Bears proposedBy sameNumber)

variable {μ : Type} (G : Embedded μ)

/-- A gateway as it is opened. -/
def Starts (s : State μ) : Prop :=
  ∃ service memory, G.engine.start service memory = .ok s.engine ∧ s.snapshots = .empty

variable {G}

/-- At first there is one ledger only. -/
theorem Starts.opened {s : State μ} (h : G.Starts s) {l : Ledger} (hl : s.Keeps l) :
    ∃ service memory, G.engine.start service memory = .ok s.engine ∧ l = s.engine.ledger := by
  obtain ⟨service, memory, hstart, hsnapshots⟩ := h
  cases hl with
  | live => exact ⟨service, memory, hstart, rfl⟩
  | kept hkept =>
    rw [hsnapshots] at hkept
    cases hkept

theorem Starts.keeps {s : State μ} (h : G.Starts s) {l : Ledger} (hl : s.Keeps l) :
    G.engine.Orderly l ∧ l.accountCounter = 0 := by
  obtain ⟨service, memory, hstart, rfl⟩ := h.opened hl
  obtain ⟨time, hledger⟩ := Engine.start_eq_ok hstart
  exact ⟨Engine.orderly_start hstart, congrArg Ledger.accountCounter hledger⟩

theorem orderly_attempt (hR : G.engine.runtime.WellBehaved) {s : Engine.State μ}
    {admission : Except Error Engine.Admission} (hfits : ∀ x, admission = .ok x → x.Fits s.ledger)
    (h : G.engine.Orderly s.ledger) :
    G.engine.Orderly (G.engine.attempt s admission).2.ledger ∧
      (G.engine.attempt s admission).2.ledger.accountCounter = s.ledger.accountCounter := by
  have hattempting := Engine.attempt_attempting hR s hfits
  generalize (G.engine.attempt s admission).1 = answer at hattempting
  generalize (G.engine.attempt s admission).2.ledger = after at hattempting ⊢
  cases hattempting with
  | refused _ => exact ⟨h, rfl⟩
  | crashed _ _ => exact ⟨h, rfl⟩
  | untimed _ htouched _ hbump hclock => exact ⟨h.skipped htouched hbump hclock, rfl⟩
  | sealed message hx htouched _ hbump _ _ => exact ⟨h.sealed (hfits _ hx) htouched hbump _ _ message, rfl⟩

theorem orderly_run (hR : G.engine.runtime.WellBehaved) {s : State μ} (hs : G.Starts s) {calls : List Call}
    (hcount : creations calls < 2 ^ 63) {l : Ledger} (hl : (G.run s calls).Keeps l) : G.engine.Orderly l := by
  have hkeeps := G.run_keeps (I := fun n l => n < 2 ^ 63 → G.engine.Orderly l ∧ l.accountCounter ≤ n)
    (fun n l h hn => (h (Nat.lt_of_succ_lt hn)).imp_right fun hle => Nat.le_succ_of_le hle)
    (fun n s keys h hn => by
      obtain ⟨horderly, hle⟩ := h (Nat.lt_of_succ_lt hn)
      exact ⟨horderly.createAccount keys (by omega), Nat.succ_le_succ hle⟩)
    (fun n s admission hadmitted h hn => by
      obtain ⟨horderly, hle⟩ := h hn
      obtain ⟨hafter, hcounter⟩ := orderly_attempt hR (fun x hx => (hadmitted x hx).fits) horderly
      exact ⟨hafter, hcounter ▸ hle⟩)
    (n := 0) (fun l hl _ => by
      obtain ⟨horderly, hzero⟩ := hs.keeps hl
      exact ⟨horderly, Nat.le_of_eq hzero⟩) calls l hl
  exact (hkeeps (by omega)).1

/-- In every ledger of a run the stored transactions stand in block order, each once; no two of them bear one sequence
number of one key; and those that a key has proposed bear all numbers below its current one, in their order, as long
as the clock answers. -/
theorem stored_numbers_exact (hR : G.engine.runtime.WellBehaved) {s : State μ} (hs : G.Starts s) {calls : List Call}
    (hcount : creations calls < 2 ^ 63) {l : Ledger} (hl : (G.run s calls).Keeps l)
    (hfree : G.engine.suite.CollisionFree fun p => ∃ id ∈ l.transactions.keys, p = Engine.collectionPreimage id) :
    l.inBlockOrder = l.transactions.values ∧
    (l.inBlockOrder.Pairwise fun t u => t.sameNumber u = false) ∧
    ((∀ reading, ∃ time, G.engine.clock reading = .ok time) →
      ∀ address index key, l.key? address index = some key → ∃ n : Nat, key.sequenceNumber = n ∧
        List.Forall₂ Bears (l.inBlockOrder.filter (proposedBy address index)) (List.range n)) := by
  have horderly := orderly_run hR hs hcount hl
  have horder := horderly.inBlockOrder_eq hfree
  rw [horder]
  refine ⟨rfl, horderly.pairwise_not_sameNumber, ?_⟩
  intro hclock address index key hkey
  obtain ⟨ns, hall, _, hcurrent⟩ := horderly.numbers address index
  obtain ⟨account, haccount, hkey⟩ := Option.bind_eq_some_iff.mp hkey
  obtain ⟨n, hn, _, hrange⟩ := hcurrent _ (Engine.sequence?_of_key? haccount hkey)
  exact ⟨n, hn, hrange hclock ▸ hall⟩

/-- A transaction, the same again, and the next one. -/
def repeatedCalls : List Call :=
  [⟨.start (), .submit (serviceEnvelope Runtime.null 0)⟩, ⟨.start (), .submit (serviceEnvelope Runtime.null 0)⟩,
    ⟨.start (), .createSnapshot "once"⟩, ⟨.start (), .submit (serviceEnvelope Runtime.null 1)⟩]

theorem stored_numbers_exact_repeated :
    let l := ((trusting Runtime.null).run (trustingStart Runtime.null ()) repeatedCalls).ledger
    (trusting Runtime.null).Starts (trustingStart Runtime.null ()) ∧ creations repeatedCalls < 2 ^ 63 ∧
    l.inBlockOrder = l.transactions.values ∧
    List.Forall₂ Bears (l.inBlockOrder.filter (proposedBy Engine.serviceAddress 0)) [0, 1] := by
  have hs : (trusting Runtime.null).Starts (trustingStart Runtime.null ()) := ⟨nobodysKey, (), rfl, rfl⟩
  have hcount : creations repeatedCalls < 2 ^ 63 := by decide
  obtain ⟨horder, _, hexact⟩ := stored_numbers_exact Runtime.null_wellBehaved hs hcount .live fun _ _ _ _ h => h
  obtain ⟨key, hkey, hnumber⟩ : ∃ key, (((trusting Runtime.null).run (trustingStart Runtime.null ())
      repeatedCalls).ledger.key? Engine.serviceAddress 0) = some key ∧ key.sequenceNumber = 2 :=
    ⟨⟨0, nobodysKey.publicKey, .ecdsaP256, .sha3_256, 1000, 2, false⟩, by decide +kernel, rfl⟩
  obtain ⟨n, hn, hall⟩ := hexact (fun _ => ⟨_, rfl⟩) Engine.serviceAddress 0 key hkey
  obtain rfl : n = 2 := by omega
  exact ⟨hs, hcount, horder, hall⟩

end Signatory.Embedded
