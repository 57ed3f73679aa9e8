import Signatory.Client
import Signatory.Poll
import Signatory.Proofs.Outcome

/-! What a wait leaves alone: a property that no look, pause or note takes away holds when it ends. -/

namespace Signatory.Poll
set_option autoImplicit false

variable {σ τ : Type}

/-- Every part of a world keeps a property of its state. -/
structure World.Keeps (W : World σ τ) (P : σ → Prop) : Prop where
  isCancelled : ∀ {s answer s'}, W.isCancelled s = (answer, s') → P s → P s'
  fetch : ∀ {ticket s answer s'}, W.fetch ticket s = (answer, s') → P s → P s'
  pause : ∀ {length s answer s'}, W.pause length s = (answer, s') → P s → P s'
  note : ∀ message {s}, P s → P (W.note message s)

/-- How a wait may be given up while its looks and its reckoning succeed. -/
inductive GivenUp (ticket : Ticket) : Error → Prop where
  | stillWaiting : GivenUp ticket .stillWaiting
  | cancelled (attempts : Nat) : GivenUp ticket (.cancelled ticket attempts)
  | notSealed (given status : Text) : GivenUp ticket (.notSealed ticket given status)

/-- While a wait lasts its world keeps one property, and reckons with times of one kind; another property is there when it
ends. -/
structure World.Leads (W : World σ τ) (ticket : Ticket) (P : σ → Prop) (L : τ → Prop)
    (Q : Except Error TransactionResult → σ → Prop) : Prop where
  isCancelled : ∀ {s answer s'}, W.isCancelled s = (answer, s') → P s → P s'
  fetch : ∀ {s answer s'}, W.fetch ticket s = (answer, s') → P s → Q answer s' ∧ ∀ r, answer = .ok r → P s'
  note : ∀ message {s}, P s → P (W.note message s)
  ahead : ∀ {length s answer}, W.ahead length s = answer → P s → L length →
    (∀ e, answer = .error e → Q (.error e) s) ∧ ∀ time, answer = .ok time → L time
  remaining : ∀ {time s answer}, W.remaining time s = answer → P s → L time →
    (∀ e, answer = .error e → Q (.error e) s) ∧ ∀ length, answer = .ok length → L length
  pause : ∀ {length s answer s'}, W.pause length s = (answer, s') → P s → L length →
    (∀ e, answer = .error e → Q (.error e) s') ∧ (answer = .ok () → P s')
  stop : ∀ {e s}, GivenUp ticket e → P s → Q (.error e) s

variable {W : World σ τ} {P : σ → Prop} {L : τ → Prop} {Q : Except Error TransactionResult → σ → Prop} {ticket : Ticket}

/-- Where every error will do, all times will. -/
theorem World.Leads.of_stop (isCancelled : ∀ {s answer s'}, W.isCancelled s = (answer, s') → P s → P s')
    (fetch : ∀ {s answer s'}, W.fetch ticket s = (answer, s') → P s → Q answer s' ∧ ∀ r, answer = .ok r → P s')
    (pause : ∀ {length s answer s'}, W.pause length s = (answer, s') → P s → P s')
    (note : ∀ message {s}, P s → P (W.note message s)) (stop : ∀ error {s}, P s → Q (.error error) s) :
    W.Leads ticket P (fun _ => True) Q where
  isCancelled := isCancelled
  fetch := fetch
  note := note
  ahead _ hs _ := ⟨fun e _ => stop e hs, fun _ _ => trivial⟩
  remaining _ hs _ := ⟨fun e _ => stop e hs, fun _ _ => trivial⟩
  pause h hs _ := ⟨fun e _ => stop e (pause h hs), fun _ => pause h hs⟩
  stop _ hs := stop _ hs

theorem World.Keeps.leads (h : W.Keeps P) (ticket : Ticket) : W.Leads ticket P (fun _ => True) fun _ => P :=
  .of_stop h.isCancelled (fun hfetch hs => ⟨h.fetch hfetch hs, fun _ _ => h.fetch hfetch hs⟩) h.pause h.note
    fun _ _ hs => hs

/-- Reckoning with a time that need not be there. -/
theorem mapM_reckons {f : τ → Except Error τ} {R : Error → Prop}
    (h : ∀ {time}, L time → (∀ e, f time = .error e → R e) ∧ ∀ length, f time = .ok length → L length) {time? : Option τ}
    (htime : ∀ time ∈ time?, L time) :
    (∀ e, time?.mapM f = .error e → R e) ∧ ∀ length?, time?.mapM f = .ok length? → ∀ length ∈ length?, L length := by
  constructor
  · intro e he
    obtain ⟨time, hmem, hf⟩ := Outcome.exists_of_optionMapM_eq_error he
    exact (h (htime time hmem)).1 e hf
  · intro length? hok length hlength
    obtain ⟨time, hmem, hf⟩ := Outcome.exists_of_mem_optionMapM hok length hlength
    exact (h (htime time hmem)).2 length hf

variable [OfNat τ 0] [LE τ] [LT τ] [DecidableRel (α := τ) (· ≤ ·)] [DecidableRel (α := τ) (· < ·)]
variable {render : τ → Text} {plan : Schedule τ}

theorem pauseLength?_cases {interval d : τ} {remaining : Option τ} (h : pauseLength? interval remaining = some d) :
    d = interval ∨ remaining = some d := by
  unfold pauseLength? at h
  split at h
  · exact .inl (Option.some.inj h).symm
  · split at h
    · cases h
    · obtain rfl := Option.some.inj h
      split
      · exact .inr rfl
      · exact .inl rfl

theorem look_leads (h : W.Leads ticket P L Q) (hinterval : L plan.interval) {deadline : Option τ}
    (hdeadline : ∀ time ∈ deadline, L time) (fuel attempts : Nat) {s : σ} (hs : P s) :
    Q (look W render plan deadline ticket fuel attempts s).1 (look W render plan deadline ticket fuel attempts s).2 := by
  induction fuel generalizing attempts s with
  | zero => exact h.stop .stillWaiting hs
  | succ n ih =>
    unfold look
    split
    · rename_i s₁ hcancelled
      exact h.stop (.cancelled _) (h.isCancelled hcancelled hs)
    · rename_i s₁ hcancelled
      have hs₁ : P s₁ := h.isCancelled hcancelled hs
      split
      · rename_i s₂ hfetch
        exact (h.fetch hfetch hs₁).1
      · rename_i r s₂ hfetch
        obtain ⟨hend, hagain⟩ := h.fetch hfetch hs₁
        have hs₂ : P s₂ := hagain r rfl
        split
        · exact hend
        · split
          · rename_i s₃ hcancelled
            exact h.stop (.cancelled _) (h.isCancelled hcancelled hs₂)
          · rename_i s₃ hcancelled
            have hs₃ : P s₃ := h.isCancelled hcancelled hs₂
            have hreckon := mapM_reckons (h.remaining rfl hs₃) hdeadline
            split
            · rename_i e hremaining
              exact hreckon.1 e hremaining
            · rename_i remaining hremaining
              have hlength : ∀ length ∈ remaining, L length := hreckon.2 remaining hremaining
              split
              · exact h.stop (.notSealed _ _) hs₃
              · rename_i d hd
                have hd : L d := (pauseLength?_cases hd).elim (· ▸ hinterval) fun hsome => hlength d hsome
                have hnoted := h.note (noteText ticket r.status) hs₃
                split
                · rename_i hpause
                  exact (h.pause hpause hnoted hd).1 _ rfl
                · rename_i s₄ hpause
                  exact ih (attempts + 1) ((h.pause hpause hnoted hd).2 rfl)

/-- A look that shows a final result, or fails, is the only one. -/
theorem look_of_terminal {s s₁ s₂ : σ} {answer : Except Error TransactionResult}
    (hcancelled : W.isCancelled s = (false, s₁)) (hfetch : W.fetch ticket s₁ = (answer, s₂))
    (hterminal : ∀ r, answer = .ok r → r.status.isTerminal = true) (deadline : Option τ) (fuel attempts : Nat) :
    look W render plan deadline ticket (fuel + 1) attempts s = (answer, s₂) := by
  unfold look
  rw [hcancelled]
  simp only [hfetch]
  cases answer with
  | error error => rfl
  | ok r => simp only [hterminal r rfl, if_true]

theorem waitForSeal_leads (h : W.Leads ticket P L Q) (hinterval : L plan.interval)
    (htimeout : ∀ length ∈ plan.timeout, L length) (fuel : Nat) {s : σ} (hs : P s) :
    Q (waitForSeal W render plan ticket fuel s).1 (waitForSeal W render plan ticket fuel s).2 := by
  have hreckon := mapM_reckons (h.ahead rfl hs) htimeout
  unfold waitForSeal
  split
  · rename_i e hahead
    exact hreckon.1 e hahead
  · rename_i deadline hahead
    exact look_leads h hinterval (hreckon.2 deadline hahead) fuel 0 hs

theorem waitForSeal_keeps (h : W.Keeps P) (fuel : Nat) (s : σ) (hs : P s) :
    P (waitForSeal W render plan ticket fuel s).2 :=
  waitForSeal_leads (h.leads ticket) trivial (fun _ _ => trivial) fuel hs

end Signatory.Poll

namespace Signatory

theorem Action.bind_of_ok {σ α β : Type} {x : Action σ α} {f : α → Action σ β} {s s' : σ} {a : α}
    (h : x s = (.ok a, s')) : (x >>= f) s = f a s' := by
  simp only [bind, ExceptT.bind, ExceptT.mk, StateT.bind, h]
  rfl

theorem Action.bind_of_error {σ α β : Type} {x : Action σ α} {f : α → Action σ β} {s s' : σ} {error : Error}
    (h : x s = (.error error, s')) : (x >>= f) s = (.error error, s') := by
  simp only [bind, ExceptT.bind, ExceptT.mk, StateT.bind, h]
  rfl

theorem Action.map_eq {σ α β : Type} (f : α → β) (x : Action σ α) (s : σ) : (f <$> x) s = ((x s).1.map f, (x s).2) := by
  rw [map_eq_pure_bind]
  rcases hx : x s with ⟨error | a, s'⟩
  · rw [bind_of_error hx]
    rfl
  · rw [bind_of_ok hx]
    rfl

theorem Action.lift_bind_of_ok {σ α β : Type} {x : Except Error α} {f : α → Action σ β} {s : σ} {a : α} (h : x = .ok a) :
    ((liftM x : Action σ α) >>= f) s = f a s := by
  rw [h]
  rfl

theorem Action.bind_lift {σ α β : Type} (x : Action σ α) (f : α → Except Error β) (s : σ) :
    (x >>= fun a => (liftM (f a) : Action σ β)) s = ((x s).1 >>= f, (x s).2) := by
  rcases hx : x s with ⟨error | a, s'⟩
  · rw [bind_of_error hx]
    rfl
  · rw [bind_of_ok hx]
    rfl

theorem Action.lift_bind {σ α β : Type} (x : Except Error α) (f : α → Except Error β) :
    (liftM (x >>= f) : Action σ β) = liftM x >>= fun a => liftM (f a) := by
  cases x <;> rfl

namespace Client

variable {β : Type}

theorem isCancelled_backend (c : Client β) : (isCancelled c).2.backend = c.backend := by
  unfold isCancelled
  split <;> rfl

theorem pause_backend (length : Number) (c : Client β) : (pause length c).2.backend = c.backend := by
  unfold pause
  split <;> rfl

/-- A wait moves the clock and the log of a client. The backend is as the looks at the result leave it. -/
theorem world_keeps_backend {fetch : Ticket → Action (Client β) TransactionResult} (b : β)
    (hfetch : ∀ ticket c, (fetch ticket c).2.backend = c.backend) :
    (world fetch).Keeps fun c => c.backend = b where
  isCancelled {c _ _} h hc := by
    rw [← hc, ← isCancelled_backend c]
    exact congrArg (fun r => r.2.backend) h.symm
  fetch {ticket c _ _} h hc := by
    rw [← hc, ← hfetch ticket c]
    exact congrArg (fun r => r.2.backend) h.symm
  pause {length c _ _} h hc := by
    rw [← hc, ← pause_backend length c]
    exact congrArg (fun r => r.2.backend) h.symm
  note _ _ hc := hc

end Client

end Signatory
