import Signatory.Proofs.Gateway.Replay
import Signatory.Proofs.Ledger.Chain

/-! Integrity of the chain along a run. -/

namespace Signatory.Embedded
set_option autoImplicit false

variable {μ : Type} {G : Embedded μ}

theorem Starts.intact {s : State μ} (h : G.Starts s) {l : Ledger} (hl : s.Keeps l) : G.engine.Intact l := by
  obtain ⟨service, memory, hstart, rfl⟩ := h.opened hl
  exact Engine.intact_start hstart

/-- A submission keeps the ledger intact, as long as the names that it uses do not collide. -/
theorem intact_attempt (hR : G.engine.runtime.WellBehaved) {s : Engine.State μ}
    {admission : Except Error Engine.Admission}
    (hadmitted : ∀ x, admission = .ok x → x.Admitted G.engine.suite s.ledger)
    (h : G.engine.suite.CollisionFree s.ledger.Digests → G.engine.Intact s.ledger)
    (hfree : G.engine.suite.CollisionFree (G.engine.attempt s admission).2.ledger.Digests) :
    G.engine.Intact (G.engine.attempt s admission).2.ledger := by
  have hattempting := Engine.attempt_attempting hR s fun x hx => (hadmitted x hx).fits
  generalize (G.engine.attempt s admission).1 = answer at hattempting
  generalize (G.engine.attempt s admission).2.ledger = after at hattempting hfree ⊢
  cases hattempting with
  | refused _ => exact h hfree
  | crashed _ _ => exact h hfree
  | untimed _ _ _ _ _ => exact (h hfree).of_accounts _ _
  | @sealed x _ _ _ _ _ message hx _ _ _ _ hevents =>
    have hfresh := (hadmitted x hx).fits.fresh
    have hbefore : G.engine.suite.CollisionFree s.ledger.Digests := fun p q hp hq hsame =>
      hfree p q (Engine.digests_sealed hfresh hp) (Engine.digests_sealed hfresh hq) hsame
    have hnumbered : StoredEvent.Numbered x.id _ := fun i e he => by
      simpa using StoredEvent.ofEmitted_numbered hevents i e he
    exact (h hbefore).sealed_block (hadmitted x hx) hnumbered hfree

/-- In every ledger of a run the blocks form a chain; each block after the first seals one transaction, which is stored
with its result, its collection and its events; and whatever is stored belongs to exactly one block. -/
theorem chain_intact (hR : G.engine.runtime.WellBehaved) {s : State μ} (hs : G.Starts s) {calls : List Call}
    {l : Ledger} (hl : (G.run s calls).Keeps l) (hfree : G.engine.suite.CollisionFree l.Digests) :
    G.engine.Intact l ∧ G.engine.Placed l := by
  have hkeeps := G.run_keeps (I := fun _ l => G.engine.suite.CollisionFree l.Digests → G.engine.Intact l)
    (fun _ _ h => h) (fun _ _ _ h hfree => (h hfree).of_accounts _ _)
    (fun _ _ _ hadmitted h => intact_attempt hR hadmitted h)
    (n := 0) (fun _ hl _ => hs.intact hl) calls l hl
  exact ⟨hkeeps hfree, (hkeeps hfree).placed⟩

/-- Two transactions in a chain of three blocks, which a name now keeps only in part. -/
theorem chain_intact_repeated :
    let s := (trusting Runtime.null).run (trustingStart Runtime.null ()) repeatedCalls
    (trusting Runtime.null).Starts (trustingStart Runtime.null ()) ∧
    (trusting Runtime.null).engine.Intact s.ledger ∧ s.ledger.blocks.length = 3 ∧
    ∃ l, s.snapshots.find? "once" = some l ∧ (trusting Runtime.null).engine.Intact l ∧ l.blocks.length = 2 := by
  intro s
  have hs : (trusting Runtime.null).Starts (trustingStart Runtime.null ()) := ⟨nobodysKey, (), rfl, rfl⟩
  have hfree (inputs : Bytes → Prop) : (trusting Runtime.null).engine.suite.CollisionFree inputs := fun _ _ _ _ h => h
  have hkeeps : ((trusting Runtime.null).run (trustingStart Runtime.null ()) repeatedCalls).Keeps s.ledger := .live
  have hlive := chain_intact Runtime.null_wellBehaved hs hkeeps (hfree _)
  have hlength : s.ledger.blocks.length = 3 := by decide +kernel
  have hkept : (s.snapshots.find? "once").map (fun l => l.blocks.length) = some 2 := by decide +kernel
  obtain ⟨l, hl, htwo⟩ := Option.map_eq_some_iff.mp hkept
  exact ⟨hs, hlive.1, hlength, l, hl, (chain_intact Runtime.null_wellBehaved hs (.kept hl) (hfree _)).1, htwo⟩

end Signatory.Embedded
