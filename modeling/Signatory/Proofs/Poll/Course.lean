import Mathlib.Data.List.Chain
import Signatory.Proofs.Poll

/-! The course of a wait: all that it does to its world, in order. Each thing that a wait does admits few others next,
and the last one decides how the wait ends. -/

namespace Signatory.Poll
set_option autoImplicit false

/-- Something that a wait does: it asks whether its signal is there, fetches a result, says that it waits, or pauses. -/
inductive Deed (τ : Type) where
  | asked (answer : Bool)
  | fetched (outcome : Except Error TransactionResult)
  | noted (message : Text)
  | paused (length : τ)

variable {σ τ : Type}

/-- The same world, which remembers what is done to it. -/
def World.traced (W : World σ τ) : World (σ × List (Deed τ)) τ where
  isCancelled s := ((W.isCancelled s.1).1, (W.isCancelled s.1).2, s.2 ++ [.asked (W.isCancelled s.1).1])
  fetch ticket s := ((W.fetch ticket s.1).1, (W.fetch ticket s.1).2, s.2 ++ [.fetched (W.fetch ticket s.1).1])
  ahead length s := W.ahead length s.1
  remaining time s := W.remaining time s.1
  pause length s := ((W.pause length s.1).1, (W.pause length s.1).2, s.2 ++ [.paused length])
  note message s := (W.note message s.1, s.2 ++ [.noted message])

section Traced

variable (W : World σ τ) (s : σ) (before : List (Deed τ))

theorem traced_isCancelled : W.traced.isCancelled (s, before) =
    ((W.isCancelled s).1, (W.isCancelled s).2, before ++ [.asked (W.isCancelled s).1]) := rfl

theorem traced_fetch (ticket : Ticket) : W.traced.fetch ticket (s, before) =
    ((W.fetch ticket s).1, (W.fetch ticket s).2, before ++ [.fetched (W.fetch ticket s).1]) := rfl

theorem traced_ahead (length : τ) : W.traced.ahead length (s, before) = W.ahead length s := rfl

theorem traced_remaining (time : τ) : W.traced.remaining time (s, before) = W.remaining time s := rfl

theorem traced_pause (length : τ) : W.traced.pause length (s, before) =
    ((W.pause length s).1, (W.pause length s).2, before ++ [.paused length]) := rfl

theorem traced_note (message : Text) :
    W.traced.note message (s, before) = (W.note message s, before ++ [.noted message]) := rfl

end Traced

/-- A result of which no more will come. -/
def Final (r : TransactionResult) : Prop := r.status = .sealed ∨ r.status = .expired

namespace Deed

def isFetch : Deed τ → Bool
  | fetched _ => true
  | _ => false

/-- What a wait may do right after it has done something. -/
inductive Next : Deed τ → Deed τ → Prop where
  | fetch (outcome : Except Error TransactionResult) : Next (asked false) (fetched outcome)
  | ask {r : TransactionResult} (hr : ¬Final r) (answer : Bool) : Next (fetched (.ok r)) (asked answer)
  | note (message : Text) : Next (asked false) (noted message)
  | pause (message : Text) (length : τ) : Next (noted message) (paused length)
  | again (length : τ) (answer : Bool) : Next (paused length) (asked answer)

/-- How a wait ends that may take so many looks, after so many fetches; what it has done stands latest first. It is given
up where the signal is there; it ends with what was fetched last; after a result that is not final it is late, or what
time is left cannot be told; a pause fails; or all looks are taken. -/
inductive Ending (W : World σ τ) (ticket : Ticket) (looks fetches : Nat) :
    List (Deed τ) → Except Error TransactionResult → Prop where
  | cancelled (before : List (Deed τ)) :
      Ending W ticket looks fetches (asked true :: before) (.error (.cancelled ticket fetches))
  | fetched (before : List (Deed τ)) {outcome : Except Error TransactionResult} (h : ∀ r, outcome = .ok r → Final r) :
      Ending W ticket looks fetches (fetched outcome :: before) outcome
  | late (before : List (Deed τ)) (r : TransactionResult) (given : Text) :
      Ending W ticket looks fetches (asked false :: fetched (.ok r) :: before)
        (.error (.notSealed ticket given r.status.name))
  | lost (before : List (Deed τ)) (r : TransactionResult) {time : τ} {s : σ} {error : Error}
      (h : W.remaining time s = .error error) :
      Ending W ticket looks fetches (asked false :: fetched (.ok r) :: before) (.error error)
  | broken (before : List (Deed τ)) (message : Text) (length : τ) {s s' : σ} {error : Error}
      (h : W.pause length s = (.error error, s')) :
      Ending W ticket looks fetches (paused length :: noted message :: before) (.error error)
  | spent {deeds : List (Deed τ)} (hlast : ∀ d ∈ deeds.head?, ∃ length, d = paused length) (hall : fetches = looks) :
      Ending W ticket looks fetches deeds (.error .stillWaiting)

/-- What came before makes no difference to the end of a wait that has done something. -/
theorem Ending.after {W : World σ τ} {ticket : Ticket} {looks fetches : Nat} {deeds : List (Deed τ)}
    {answer : Except Error TransactionResult} (h : Ending W ticket looks fetches deeds.reverse answer) (hdeeds : deeds ≠ [])
    (before : List (Deed τ)) : Ending W ticket looks fetches (before ++ deeds).reverse answer := by
  obtain ⟨last, front, hlast⟩ := List.exists_cons_of_ne_nil (List.reverse_ne_nil_iff.mpr hdeeds)
  rw [List.reverse_append, hlast]
  rw [hlast] at h
  cases h with
  | cancelled => exact .cancelled _
  | fetched _ h => exact .fetched _ h
  | late _ r given => exact .late _ r given
  | lost _ r h => exact .lost _ r h
  | broken _ message length h => exact .broken _ message length h
  | spent hlast hall => exact .spent hlast hall

end Deed

/-- The deadline of a wait cannot be told. -/
def World.Unplanned (W : World σ τ) (plan : Schedule τ) (s : σ) (answer : Except Error TransactionResult) : Prop :=
  ∃ length ∈ plan.timeout, ∃ error, W.ahead length s = .error error ∧ answer = .error error

/-- The course of a wait that may take so many looks, and has fetched so many results before. -/
structure Course (W : World σ τ) (ticket : Ticket) (looks attempts : Nat) (deeds : List (Deed τ))
    (answer : Except Error TransactionResult) : Prop where
  begins : ∀ d ∈ deeds.head?, ∃ answer, d = .asked answer
  path : deeds.IsChain Deed.Next
  ends : Deed.Ending W ticket looks (attempts + deeds.countP Deed.isFetch) deeds.reverse answer

theorem final_iff {r : TransactionResult} : r.status.isTerminal = true ↔ Final r := by
  rw [TransactionStatus.isTerminal, Bool.or_eq_true, decide_eq_true_eq, decide_eq_true_eq, Final]

section Round

variable {W : World σ τ} {ticket : Ticket} {looks attempts : Nat} {answer : Except Error TransactionResult}
  {r : TransactionResult}

theorem Course.spent : Course W ticket attempts attempts [] (.error .stillWaiting) where
  begins := nofun
  path := .nil
  ends := .spent nofun rfl

theorem Course.cancelled : Course W ticket looks attempts [.asked true] (.error (.cancelled ticket attempts)) where
  begins := fun _ hd => ⟨true, (Option.some.inj hd).symm⟩
  path := .singleton _
  ends := .cancelled []

/-- A fetch that fails or brings a final result is the last. -/
theorem Course.fetched {outcome : Except Error TransactionResult} (h : ∀ r, outcome = .ok r → Final r) :
    Course W ticket looks attempts [.asked false, .fetched outcome] outcome where
  begins := fun _ hd => ⟨false, (Option.some.inj hd).symm⟩
  path := List.isChain_pair.mpr (.fetch outcome)
  ends := .fetched _ h

theorem Course.failed (error : Error) :
    Course W ticket looks attempts [.asked false, .fetched (.error error)] (.error error) := .fetched nofun

theorem Course.returned (hr : Final r) : Course W ticket looks attempts [.asked false, .fetched (.ok r)] (.ok r) :=
  .fetched fun _ heq => Except.ok.inj heq ▸ hr

/-- Where a result is not final the wait asks again, and that may be all. -/
theorem Course.stopped (hr : ¬Final r)
    (h : ∀ before, Deed.Ending W ticket looks (attempts + 1) (.asked false :: .fetched (.ok r) :: before) answer) :
    Course W ticket looks attempts [.asked false, .fetched (.ok r), .asked false] answer where
  begins := fun _ hd => ⟨false, (Option.some.inj hd).symm⟩
  path := .cons_cons (.fetch _) (List.isChain_pair.mpr (.ask hr false))
  ends := h _

/-- Or it goes on as if it began there. -/
theorem Course.unfinished (hr : ¬Final r) {later : List (Deed τ)} (hlater : later ≠ [])
    (h : Course W ticket looks (attempts + 1) later answer) :
    Course W ticket looks attempts (.asked false :: .fetched (.ok r) :: later) answer := by
  refine ⟨fun _ hd => ⟨false, (Option.some.inj hd).symm⟩, ?_, ?_⟩
  · refine .cons_cons (.fetch _) (List.isChain_cons.mpr ⟨?_, h.path⟩)
    intro d hd
    obtain ⟨again, rfl⟩ := h.begins d hd
    exact .ask hr again
  · have hcount : attempts + (.asked false :: .fetched (.ok r) :: later : List (Deed τ)).countP Deed.isFetch =
        attempts + 1 + later.countP Deed.isFetch := by
      simp only [List.countP_cons, Deed.isFetch, Bool.false_eq_true, if_true, if_false]
      omega
    rw [hcount]
    exact h.ends.after hlater [.asked false, .fetched (.ok r)]

/-- A pause that fails is the last. -/
theorem Course.broken (message : Text) {length : τ} {s s' : σ} {error : Error}
    (h : W.pause length s = (.error error, s')) :
    Course W ticket looks attempts [.asked false, .noted message, .paused length] (.error error) where
  begins := fun _ hd => ⟨false, (Option.some.inj hd).symm⟩
  path := .cons_cons (.note message) (List.isChain_pair.mpr (.pause message length))
  ends := .broken _ message length h

/-- A pause comes after a note, and before all that the wait does then. -/
theorem Course.paused (message : Text) (length : τ) {later : List (Deed τ)}
    (h : Course W ticket looks attempts later answer) :
    Course W ticket looks attempts (.asked false :: .noted message :: .paused length :: later) answer := by
  refine ⟨fun _ hd => ⟨false, (Option.some.inj hd).symm⟩, ?_, ?_⟩
  · refine .cons_cons (.note message) (.cons_cons (.pause message length) (List.isChain_cons.mpr ⟨?_, h.path⟩))
    intro d hd
    obtain ⟨again, rfl⟩ := h.begins d hd
    exact .again length again
  · have hcount : (.asked false :: .noted message :: .paused length :: later : List (Deed τ)).countP Deed.isFetch =
        later.countP Deed.isFetch := by
      simp only [List.countP_cons, Deed.isFetch, Bool.false_eq_true, if_false, Nat.add_zero]
    have hends := h.ends
    rw [hcount]
    cases later with
    | nil =>
      cases hends with
      | spent _ hall => exact .spent (fun _ hd => ⟨length, (Option.some.inj hd).symm⟩) hall
    | cons d rest => exact hends.after (List.cons_ne_nil d rest) [.asked false, .noted message, .paused length]

end Round

/-- A wait that may take so many looks keeps to its signal and to what it fetches. It asks first, unless it may not look
at all or cannot tell its deadline, and it ends in no other way than the ways of a wait. -/
structure Disciplined (W : World σ τ) (plan : Schedule τ) (ticket : Ticket) (looks : Nat) (s : σ) (deeds : List (Deed τ))
    (answer : Except Error TransactionResult) : Prop where
  begins : ∀ d ∈ deeds.head?, ∃ answer, d = .asked answer
  idle : deeds = [] → looks = 0 ∨ W.Unplanned plan s answer
  asked : ∀ before outcome after, deeds = before ++ .fetched outcome :: after →
    ∃ earlier, before = earlier ++ [.asked false]
  cancelled : ∀ before after, deeds = before ++ .asked true :: after →
    after = [] ∧ answer = .error (.cancelled ticket (before.countP Deed.isFetch))
  returned : ∀ r, answer = .ok r ↔ ∃ before after, deeds = before ++ .fetched (.ok r) :: after ∧ Final r ∧
    ∀ other, .fetched (.ok other) ∈ before → ¬Final other
  last : ∀ before r after, deeds = before ++ .fetched (.ok r) :: after → Final r → after = []
  failed : ∀ before error after, deeds = before ++ .fetched (.error error) :: after → after = [] ∧ answer = .error error
  ends : deeds = [] ∧ W.Unplanned plan s answer ∨
    Deed.Ending W ticket looks (deeds.countP Deed.isFetch) deeds.reverse answer

theorem Deed.not_next_asked (d : Deed τ) : ¬Next (.asked true) d := nofun

theorem Deed.not_next_fetched {outcome : Except Error TransactionResult} (h : ∀ r, outcome = .ok r → Final r)
    (d : Deed τ) : ¬Next (.fetched outcome) d := by
  rintro ⟨⟩
  exact absurd (h _ rfl) ‹_›

section Course

variable {W : World σ τ} {ticket : Ticket} {looks attempts : Nat} {deeds before after : List (Deed τ)}
  {answer : Except Error TransactionResult} (h : Course W ticket looks attempts deeds answer)
include h

theorem Course.next {d e : Deed τ} (hdeeds : deeds = before ++ d :: e :: after) : d.Next e :=
  List.isChain_iff_forall_rel_of_append_cons_cons.mp h.path hdeeds

theorem Course.exists_asked {outcome : Except Error TransactionResult}
    (hdeeds : deeds = before ++ .fetched outcome :: after) : ∃ earlier, before = earlier ++ [.asked false] := by
  rcases List.eq_nil_or_concat' before with rfl | ⟨earlier, d, rfl⟩
  · obtain ⟨_, hfirst⟩ := h.begins (.fetched outcome) (hdeeds ▸ rfl)
    cases hfirst
  · rw [List.append_assoc, List.singleton_append] at hdeeds
    cases h.next hdeeds
    exact ⟨earlier, rfl⟩

/-- A deed that admits nothing next is the last one, and decides how the wait ends. -/
theorem Course.ends_of_last {d : Deed τ} (hlast : ∀ e, ¬d.Next e) (hdeeds : deeds = before ++ d :: after) :
    after = [] ∧ Deed.Ending W ticket looks (attempts + deeds.countP Deed.isFetch) (d :: before.reverse) answer := by
  cases after with
  | nil =>
    have hends := h.ends
    have hreverse : deeds.reverse = d :: before.reverse := hdeeds ▸ List.reverse_concat
    rw [hreverse] at hends
    exact ⟨rfl, hends⟩
  | cons e after => exact absurd (h.next hdeeds) (hlast e)

theorem Course.cancelled_of_asked (hdeeds : deeds = before ++ .asked true :: after) :
    after = [] ∧ answer = .error (.cancelled ticket (attempts + before.countP Deed.isFetch)) := by
  obtain ⟨rfl, hends⟩ := h.ends_of_last Deed.not_next_asked hdeeds
  refine ⟨rfl, ?_⟩
  rw [hdeeds, List.countP_append, List.countP_singleton] at hends
  cases hends with
  | cancelled => rfl
  | spent hlast _ =>
    obtain ⟨_, hpaused⟩ := hlast _ rfl
    cases hpaused

theorem Course.of_fetched {outcome : Except Error TransactionResult} (hlast : ∀ r, outcome = .ok r → Final r)
    (hdeeds : deeds = before ++ .fetched outcome :: after) : after = [] ∧ answer = outcome := by
  obtain ⟨rfl, hends⟩ := h.ends_of_last (Deed.not_next_fetched hlast) hdeeds
  refine ⟨rfl, ?_⟩
  cases hends with
  | fetched _ _ => rfl
  | spent hlast _ =>
    obtain ⟨_, hpaused⟩ := hlast _ rfl
    cases hpaused

theorem Course.ok_iff (r : TransactionResult) : answer = .ok r ↔ ∃ before after,
    deeds = before ++ .fetched (.ok r) :: after ∧ Final r ∧ ∀ other, .fetched (.ok other) ∈ before → ¬Final other := by
  constructor
  · rintro rfl
    have hends := h.ends
    generalize hreverse : deeds.reverse = latest at hends
    cases hends with
    | fetched before hfinal =>
      obtain ⟨before, rfl⟩ : ∃ before, deeds = before ++ [.fetched (.ok r)] :=
        ⟨before.reverse, by rw [← List.reverse_cons, ← hreverse, List.reverse_reverse]⟩
      refine ⟨before, [], rfl, hfinal r rfl, ?_⟩
      -- A final one before would have been the last.
      intro other hother hfinal
      obtain ⟨earlier, rest, rfl⟩ := List.append_of_mem hother
      have hnil := (h.of_fetched (fun _ heq => Except.ok.inj heq ▸ hfinal)
        (by rw [List.append_assoc, List.cons_append])).1
      exact List.append_ne_nil_of_right_ne_nil rest (List.cons_ne_nil _ _) hnil
  · rintro ⟨before, after, hdeeds, hfinal, _⟩
    exact (h.of_fetched (fun _ heq => Except.ok.inj heq ▸ hfinal) hdeeds).2

/-- A wait that does nothing may not look at all. -/
theorem Course.idle (hfirst : attempts = 0) (hdeeds : deeds = []) : looks = 0 := by
  have hends := h.ends
  rw [hdeeds, List.countP_nil, hfirst, List.reverse_nil] at hends
  cases hends with
  | spent _ hall => exact hall.symm

theorem Course.disciplined (hfirst : attempts = 0) (plan : Schedule τ) (s : σ) :
    Disciplined W plan ticket looks s deeds answer where
  begins := h.begins
  idle hdeeds := .inl (h.idle hfirst hdeeds)
  asked _ _ _ hdeeds := h.exists_asked hdeeds
  cancelled before after hdeeds := by
    have hcancelled := h.cancelled_of_asked hdeeds
    rwa [hfirst, Nat.zero_add] at hcancelled
  returned := h.ok_iff
  last _ _ _ hdeeds hfinal := (h.of_fetched (fun _ heq => Except.ok.inj heq ▸ hfinal) hdeeds).1
  failed _ _ _ hdeeds := h.of_fetched nofun hdeeds
  ends := by
    have hends := h.ends
    rw [hfirst, Nat.zero_add] at hends
    exact .inr hends

end Course

theorem World.Unplanned.disciplined {W : World σ τ} {plan : Schedule τ} {s : σ}
    {answer : Except Error TransactionResult} (h : W.Unplanned plan s answer) (ticket : Ticket) (looks : Nat) :
    Disciplined W plan ticket looks s [] answer where
  begins := nofun
  idle _ := .inr h
  asked _ _ _ hdeeds := absurd hdeeds (List.append_ne_nil_of_right_ne_nil _ (List.cons_ne_nil _ _)).symm
  cancelled _ _ hdeeds := absurd hdeeds (List.append_ne_nil_of_right_ne_nil _ (List.cons_ne_nil _ _)).symm
  returned r := by
    obtain ⟨_, _, error, _, rfl⟩ := h
    refine iff_of_false nofun ?_
    rintro ⟨_, _, hdeeds, _⟩
    exact absurd hdeeds (List.append_ne_nil_of_right_ne_nil _ (List.cons_ne_nil _ _)).symm
  last _ _ _ hdeeds := absurd hdeeds (List.append_ne_nil_of_right_ne_nil _ (List.cons_ne_nil _ _)).symm
  failed _ _ _ hdeeds := absurd hdeeds (List.append_ne_nil_of_right_ne_nil _ (List.cons_ne_nil _ _)).symm
  ends := .inl ⟨rfl, h⟩

section Wait

variable [OfNat τ 0] [LE τ] [LT τ] [DecidableRel (α := τ) (· ≤ ·)] [DecidableRel (α := τ) (· < ·)]
variable {W : World σ τ} {render : τ → Text} {plan : Schedule τ} {ticket : Ticket}

/-- The traced world goes the way of the world itself, and what it remembers is the course of the wait. -/
theorem look_course (deadline : Option τ) (fuel attempts : Nat) (s : σ) (before : List (Deed τ)) :
    ∃ later, look W.traced render plan deadline ticket fuel attempts (s, before) =
        ((look W render plan deadline ticket fuel attempts s).1, (look W render plan deadline ticket fuel attempts s).2,
          before ++ later) ∧
      Course W ticket (attempts + fuel) attempts later (look W render plan deadline ticket fuel attempts s).1 := by
  induction fuel generalizing attempts s before with
  | zero => exact ⟨[], by rw [List.append_nil]; rfl, .spent⟩
  | succ n ih =>
    unfold look
    rw [traced_isCancelled]
    rcases W.isCancelled s with ⟨_ | _, s₁⟩
    · simp only [traced_fetch]
      rcases W.fetch ticket s₁ with ⟨error | r, s₂⟩
      · exact ⟨[.asked false, .fetched (.error error)], by simp, .failed error⟩
      · by_cases hr : r.status.isTerminal = true
        · simp only [if_pos hr]
          exact ⟨[.asked false, .fetched (.ok r)], by simp, .returned (final_iff.mp hr)⟩
        · have hfinal : ¬Final r := fun h => hr (final_iff.mpr h)
          simp only [if_neg hr, traced_isCancelled]
          rcases W.isCancelled s₂ with ⟨_ | _, s₃⟩
          · simp only [traced_remaining]
            cases hreckoned : deadline.mapM (W.remaining · s₃) with
            | error error =>
              obtain ⟨time, _, hlost⟩ := Outcome.exists_of_optionMapM_eq_error hreckoned
              exact ⟨[.asked false, .fetched (.ok r), .asked false], by simp,
                .stopped hfinal fun earlier => .lost earlier r hlost⟩
            | ok remaining =>
              simp only
              cases pauseLength? plan.interval remaining with
              | none =>
                exact ⟨[.asked false, .fetched (.ok r), .asked false], by simp,
                  .stopped hfinal fun earlier => .late earlier r _⟩
              | some length =>
                simp only [traced_note, traced_pause]
                rcases hpause : W.pause length (W.note (noteText ticket r.status) s₃) with ⟨error | _, s₄⟩
                · exact ⟨[.asked false, .fetched (.ok r), .asked false, .noted (noteText ticket r.status), .paused length],
                    by simp, .unfinished hfinal (by simp) (.broken _ hpause)⟩
                · obtain ⟨later, hlook, hlater⟩ := ih (attempts + 1) s₄
                    (before ++ [.asked false, .fetched (.ok r), .asked false, .noted _, .paused length])
                  rw [Nat.add_right_comm] at hlater
                  exact ⟨_, by simpa using hlook, .unfinished hfinal (by simp) (.paused _ length hlater)⟩
          · exact ⟨[.asked false, .fetched (.ok r), .asked true], by simp, .unfinished hfinal (by simp) .cancelled⟩
    · exact ⟨[.asked true], rfl, .cancelled⟩

variable (W render plan ticket)

/-- A wait asks for its signal before all else, unless it may not look at all or cannot tell its deadline. Each fetch comes
right after the signal was asked for and not there; where the signal is there the wait is given up and nothing more is
done; a result is returned exactly when it is the first final one that was fetched, whatever the signal does meanwhile; a
fetch that fails is the last and fails the wait; and besides, a wait ends only if it is late after a result that is not
final, if what time is left cannot be told there, if a pause fails, or if all looks are taken. -/
theorem wait_disciplined (fuel : Nat) (s : σ) :
    ∃ deeds, waitForSeal W.traced render plan ticket fuel (s, []) =
        ((waitForSeal W render plan ticket fuel s).1, (waitForSeal W render plan ticket fuel s).2, deeds) ∧
      Disciplined W plan ticket fuel s deeds (waitForSeal W render plan ticket fuel s).1 := by
  unfold waitForSeal
  simp only [traced_ahead]
  cases hreckoned : plan.timeout.mapM (W.ahead · s) with
  | error error =>
    obtain ⟨length, hlength, hahead⟩ := Outcome.exists_of_optionMapM_eq_error hreckoned
    have hunplanned : W.Unplanned plan s (.error error) := ⟨length, hlength, error, hahead, rfl⟩
    exact ⟨[], rfl, hunplanned.disciplined ticket fuel⟩
  | ok deadline =>
    obtain ⟨deeds, htraced, hcourse⟩ := look_course deadline fuel 0 s []
    rw [Nat.zero_add] at hcourse
    exact ⟨deeds, htraced, hcourse.disciplined rfl plan s⟩

end Wait

end Signatory.Poll
