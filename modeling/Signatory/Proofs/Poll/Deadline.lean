import Mathlib.Algebra.Order.Floor.Semiring
import Mathlib.Data.Rat.Floor
import Mathlib.Tactic.Linarith
import Signatory.Proofs.Poll.Course

/-! The deadline of a wait, where time is exact. Looks come at multiples of the interval, and once more at the deadline
itself, where the wait gives up. -/

namespace Signatory.Poll
set_option autoImplicit false

variable {σ : Type}

/-- A world with exact time, in which looks take none, pauses take what they are given, and the signal never comes. The
results come one after another; the times at which they were fetched are known. -/
structure World.Exact (W : World σ ℚ) (ticket : Ticket) (clock : σ → ℚ) (fetches : σ → List ℚ)
    (results : ℕ → TransactionResult) : Prop where
  isCancelled : ∀ s, ∃ s', W.isCancelled s = (false, s') ∧ clock s' = clock s ∧ fetches s' = fetches s
  fetch : ∀ s, ∃ s', W.fetch ticket s = (.ok (results (fetches s).length), s') ∧ clock s' = clock s ∧
    fetches s' = fetches s ++ [clock s]
  ahead : ∀ length s, W.ahead length s = .ok (clock s + length)
  remaining : ∀ time s, W.remaining time s = .ok (time - clock s)
  pause : ∀ length s, 0 < length → ∃ s', W.pause length s = (.ok (), s') ∧ clock s' = clock s + length ∧
    fetches s' = fetches s
  note : ∀ message s, clock (W.note message s) = clock s ∧ fetches (W.note message s) = fetches s

/-- When the looks of a wait are due. -/
def lookTime (start interval timeout : ℚ) (k : ℕ) : ℚ := start + min (k * interval) timeout

section Times

variable {start interval timeout : ℚ}

theorem lookTime_zero (htimeout : 0 ≤ timeout) : lookTime start interval timeout 0 = start := by
  rw [lookTime, Nat.cast_zero, zero_mul, min_eq_left htimeout, add_zero]

theorem lookTime_le (k : ℕ) : lookTime start interval timeout k ≤ start + timeout :=
  add_le_add_right (min_le_right _ _) start

theorem lookTime_of_le {k : ℕ} (h : timeout ≤ k * interval) : lookTime start interval timeout k = start + timeout := by
  rw [lookTime, min_eq_right h]

/-- From an early look the next one is an interval away, or what is left of the time. -/
theorem lookTime_succ {k : ℕ} (h : k * interval < timeout) :
    lookTime start interval timeout k + min interval (start + timeout - lookTime start interval timeout k) =
      lookTime start interval timeout (k + 1) := by
  have hearly : lookTime start interval timeout k = start + k * interval := by rw [lookTime, min_eq_left h.le]
  rw [hearly, ← min_add_add_left, lookTime, Nat.cast_succ, add_mul, one_mul, ← min_add_add_left, ← add_assoc]
  congr 1
  ring

theorem eq_lookTime {times : List ℚ} {n k : ℕ} {time : ℚ}
    (h : times = (List.range n).map (lookTime start interval timeout)) (htime : times[k]? = some time) :
    time = start + min (k * interval) timeout ∧ time ≤ start + timeout := by
  rw [h, List.getElem?_map, Option.map_eq_some_iff] at htime
  obtain ⟨j, hj, rfl⟩ := htime
  obtain ⟨_, rfl⟩ := List.getElem?_eq_some_iff.mp hj
  rw [List.getElem_range]
  exact ⟨rfl, lookTime_le k⟩

/-- The look at the deadline. -/
theorem ceil_le_iff (hinterval : 0 < interval) (k : ℕ) : ⌈timeout / interval⌉₊ ≤ k ↔ timeout ≤ k * interval := by
  rw [Nat.ceil_le, div_le_iff₀ hinterval]

theorem pauseLength?_of_pos {remaining : ℚ} (h : 0 < remaining) :
    pauseLength? interval (some remaining) = some (min interval remaining) := by
  simp only [pauseLength?, if_neg h.not_ge, Option.some.injEq]
  split
  · rename_i hshort
    exact (min_eq_right hshort.le).symm
  · rename_i hlong
    exact (min_eq_left (not_lt.mp hlong)).symm

end Times

section Look

variable {W : World σ ℚ} {ticket : Ticket} {clock : σ → ℚ} {fetches : σ → List ℚ} {results : ℕ → TransactionResult}
  {start interval timeout : ℚ}

/-- A state in which so many looks have been taken in time, and the next one is due. -/
structure Due (clock : σ → ℚ) (fetches : σ → List ℚ) (start interval timeout : ℚ) (k : ℕ) (s : σ) : Prop where
  time : clock s = lookTime start interval timeout k
  taken : fetches s = (List.range k).map (lookTime start interval timeout)

variable (h : W.Exact ticket clock fetches results) (render : ℚ → Text) {k : ℕ} {s : σ}
  (hs : Due clock fetches start interval timeout k s)
include h hs

theorem fetch_of_due : ∃ s₁ s₂, W.isCancelled s = (false, s₁) ∧ W.fetch ticket s₁ = (.ok (results k), s₂) ∧
    clock s₂ = lookTime start interval timeout k ∧
    fetches s₂ = (List.range (k + 1)).map (lookTime start interval timeout) := by
  obtain ⟨s₁, hcancelled, hclock₁, hfetches₁⟩ := h.isCancelled s
  obtain ⟨s₂, hfetch, hclock₂, hfetches₂⟩ := h.fetch s₁
  have hlength : (fetches s₁).length = k := by rw [hfetches₁, hs.taken, List.length_map, List.length_range]
  rw [hlength] at hfetch
  refine ⟨s₁, s₂, hcancelled, hfetch, by rw [hclock₂, hclock₁, hs.time], ?_⟩
  rw [hfetches₂, hclock₁, hfetches₁, hs.taken, hs.time, List.range_succ, List.map_append, List.map_singleton]

theorem look_of_final (hfinal : Final (results k)) : ∃ s',
    (∀ n, look W render ⟨interval, some timeout⟩ (some (start + timeout)) ticket (n + 1) k s = (.ok (results k), s')) ∧
      fetches s' = (List.range (k + 1)).map (lookTime start interval timeout) := by
  obtain ⟨s₁, s₂, hcancelled, hfetch, _, hfetches⟩ := fetch_of_due h hs
  refine ⟨s₂, fun n => ?_, hfetches⟩
  exact look_of_terminal hcancelled hfetch (fun r hr => Except.ok.inj hr ▸ final_iff.mpr hfinal) _ n k

theorem look_of_late (hfinal : ¬Final (results k)) (hlate : timeout ≤ k * interval) : ∃ s',
    (∀ n, look W render ⟨interval, some timeout⟩ (some (start + timeout)) ticket (n + 1) k s =
      (.error (.notSealed ticket (render timeout) (results k).status.name), s')) ∧
      clock s' = start + timeout ∧ fetches s' = (List.range (k + 1)).map (lookTime start interval timeout) := by
  obtain ⟨s₁, s₂, hcancelled, hfetch, hclock, hfetches⟩ := fetch_of_due h hs
  obtain ⟨s₃, hagain, hclock₃, hfetches₃⟩ := h.isCancelled s₂
  have htime : clock s₃ = start + timeout := by rw [hclock₃, hclock, lookTime_of_le hlate]
  have hremaining : W.remaining (start + timeout) s₃ = .ok 0 := by rw [h.remaining, htime, sub_self]
  refine ⟨s₃, fun n => ?_, htime, hfetches₃.trans hfetches⟩
  have hterminal : ¬(results k).status.isTerminal = true := fun hr => hfinal (final_iff.mp hr)
  simp [look, hcancelled, hfetch, hterminal, hagain, hremaining, pauseLength?]

theorem look_of_early (hinterval : 0 < interval) (hfinal : ¬Final (results k)) (hearly : k * interval < timeout) :
    ∃ s', (∀ n, look W render ⟨interval, some timeout⟩ (some (start + timeout)) ticket (n + 1) k s =
        look W render ⟨interval, some timeout⟩ (some (start + timeout)) ticket n (k + 1) s') ∧
      Due clock fetches start interval timeout (k + 1) s' := by
  obtain ⟨s₁, s₂, hcancelled, hfetch, hclock, hfetches⟩ := fetch_of_due h hs
  obtain ⟨s₃, hagain, hclock₃, hfetches₃⟩ := h.isCancelled s₂
  have htime : clock s₃ = lookTime start interval timeout k := hclock₃.trans hclock
  have hleft : 0 < start + timeout - lookTime start interval timeout k := by
    rw [lookTime, min_eq_left hearly.le]
    linarith
  obtain ⟨hnotedClock, hnotedFetches⟩ := h.note (noteText ticket (results k).status) s₃
  obtain ⟨s₄, hpause, hclock₄, hfetches₄⟩ := h.pause _ (W.note (noteText ticket (results k).status) s₃)
    (lt_min hinterval hleft)
  have hremaining := h.remaining (start + timeout) s₃
  rw [htime] at hremaining
  have hterminal : ¬(results k).status.isTerminal = true := fun hr => hfinal (final_iff.mp hr)
  refine ⟨s₄, fun n => ?_, ?_, ?_⟩
  · rw [look]
    simp [hcancelled, hfetch, hterminal, hagain, hremaining, pauseLength?_of_pos hleft, hpause]
  · rw [hclock₄, hnotedClock, htime, lookTime_succ hearly]
  · rw [hfetches₄, hnotedFetches, hfetches₃, hfetches]

end Look

section Wait

variable {W : World σ ℚ} {ticket : Ticket} {clock : σ → ℚ} {fetches : σ → List ℚ} {results : ℕ → TransactionResult}
  (h : W.Exact ticket clock fetches results) (render : ℚ → Text) {interval timeout : ℚ}
include h

/-- Up to the look at the deadline a wait goes on, as long as no result is final. -/
theorem exists_due (hinterval : 0 < interval) (htimeout : 0 ≤ timeout) {s : σ} (hs : fetches s = []) (k : ℕ)
    (hk : k ≤ ⌈timeout / interval⌉₊) (hearly : ∀ j < k, ¬Final (results j)) :
    ∃ s', Due clock fetches (clock s) interval timeout k s' ∧
      ∀ n, waitForSeal W render ⟨interval, some timeout⟩ ticket (n + k) s =
        look W render ⟨interval, some timeout⟩ (some (clock s + timeout)) ticket n k s' := by
  induction k with
  | zero =>
    refine ⟨s, ⟨(lookTime_zero htimeout).symm, hs⟩, fun n => ?_⟩
    rw [waitForSeal, Option.mapM_some, h.ahead]
    rfl
  | succ k ih =>
    obtain ⟨s₁, hdue, hwait⟩ := ih (Nat.le_of_succ_le hk) fun j hj => hearly j (Nat.lt_succ_of_lt hj)
    have hbefore : k * interval < timeout := by
      rw [← not_le, ← ceil_le_iff hinterval]
      exact Nat.not_le.mpr hk
    obtain ⟨s₂, hlook, hdue⟩ := look_of_early h render hdue hinterval (hearly k (Nat.lt_succ_self k)) hbefore
    refine ⟨s₂, hdue, fun n => ?_⟩
    rw [← hlook n, ← hwait (n + 1), Nat.add_right_comm, Nat.add_assoc]

/-- A wait with a deadline ends. Its looks come at multiples of the interval and at the deadline, and none after it; it
brings the first final result that they show, and gives up at the deadline if there is none. -/
theorem deadline_kept (hinterval : 0 < interval) (htimeout : 0 ≤ timeout) {s : σ} (hs : fetches s = []) :
    ∃ answer s', (∀ fuel, ⌈timeout / interval⌉₊ < fuel →
        waitForSeal W render ⟨interval, some timeout⟩ ticket fuel s = (answer, s')) ∧
      (∀ (k : ℕ) time, (fetches s')[k]? = some time →
        time = clock s + min (k * interval) timeout ∧ time ≤ clock s + timeout) ∧
      ((∀ k ≤ ⌈timeout / interval⌉₊, ¬Final (results k)) →
        answer = .error (.notSealed ticket (render timeout) (results ⌈timeout / interval⌉₊).status.name) ∧
          clock s' = clock s + timeout ∧ (fetches s').length = ⌈timeout / interval⌉₊ + 1) ∧
      ∀ k ≤ ⌈timeout / interval⌉₊, Final (results k) → (∀ j < k, ¬Final (results j)) →
        answer = .ok (results k) ∧ (fetches s').length = k + 1 := by
  classical
  by_cases hfinal : ∃ k, k ≤ ⌈timeout / interval⌉₊ ∧ Final (results k)
  · obtain ⟨hk, hfound⟩ := Nat.find_spec hfinal
    have hfirst : ∀ j < Nat.find hfinal, ¬Final (results j) := fun j hj hj' =>
      Nat.find_min hfinal hj ⟨(hj.trans_le hk).le, hj'⟩
    obtain ⟨s₁, hdue, hwait⟩ := exists_due h render hinterval htimeout hs _ hk hfirst
    obtain ⟨s', hlook, hfetches⟩ := look_of_final h render hdue hfound
    have hlength : (fetches s').length = Nat.find hfinal + 1 := by rw [hfetches, List.length_map, List.length_range]
    refine ⟨.ok (results (Nat.find hfinal)), s', ?_, fun _ _ => eq_lookTime hfetches, ?_, ?_⟩
    · intro fuel hfuel
      obtain ⟨n, rfl⟩ : ∃ n, fuel = n + 1 + Nat.find hfinal := ⟨fuel - 1 - Nat.find hfinal, by omega⟩
      rw [hwait, hlook]
    · intro hnone
      exact absurd hfound (hnone _ hk)
    · intro k hk' hfinal' hfirst'
      obtain rfl : k = Nat.find hfinal := le_antisymm
        (not_lt.mp fun hlt => hfirst' _ hlt hfound) (not_lt.mp fun hlt => hfirst _ hlt hfinal')
      exact ⟨rfl, hlength⟩
  · push Not at hfinal
    obtain ⟨s₁, hdue, hwait⟩ := exists_due h render hinterval htimeout hs _ le_rfl fun j hj => hfinal j hj.le
    have hlate : timeout ≤ ⌈timeout / interval⌉₊ * interval := (ceil_le_iff hinterval _).mp le_rfl
    obtain ⟨s', hlook, hclock, hfetches⟩ := look_of_late h render hdue (hfinal _ le_rfl) hlate
    have hlength : (fetches s').length = ⌈timeout / interval⌉₊ + 1 := by
      rw [hfetches, List.length_map, List.length_range]
    refine ⟨_, s', ?_, fun _ _ => eq_lookTime hfetches, fun _ => ⟨rfl, hclock, hlength⟩, ?_⟩
    · intro fuel hfuel
      obtain ⟨n, rfl⟩ : ∃ n, fuel = n + 1 + ⌈timeout / interval⌉₊ := ⟨fuel - 1 - ⌈timeout / interval⌉₊, by omega⟩
      rw [hwait, hlook]
    · intro k hk hfound _
      exact absurd hfound (hfinal k hk)

end Wait

-- A wait of three seconds that looks every two.
/-- A clock with the times at which somebody looked. -/
structure Watch where
  now : ℚ
  looks : List ℚ

def Watch.world (results : ℕ → TransactionResult) : World Watch ℚ where
  isCancelled s := (false, s)
  fetch _ s := (.ok (results s.looks.length), { s with looks := s.looks ++ [s.now] })
  ahead length s := .ok (s.now + length)
  remaining time s := .ok (time - s.now)
  pause length s := (.ok (), { s with now := s.now + length })
  note _ s := s

theorem Watch.exact (ticket : Ticket) (results : ℕ → TransactionResult) :
    (world results).Exact ticket Watch.now Watch.looks results where
  isCancelled s := ⟨s, rfl, rfl, rfl⟩
  fetch _ := ⟨_, rfl, rfl, rfl⟩
  ahead _ _ := rfl
  remaining _ _ := rfl
  pause _ _ _ := ⟨_, rfl, rfl, rfl⟩
  note _ _ := ⟨rfl, rfl⟩

def pendingResult : TransactionResult := ⟨.pending, [], [], none⟩

/-- From 5 on the looks are at 5, 7 and 8. -/
theorem deadline_kept_unsealed : ∃ s', (∀ fuel, 2 < fuel →
    waitForSeal (Watch.world fun _ => pendingResult) (fun _ => "3") ⟨2, some 3⟩ (.id []) fuel ⟨5, []⟩ =
      (.error (.notSealed (.id []) "3" "PENDING"), s')) ∧ s'.now = 8 ∧ s'.looks = [5, 7, 8] := by
  have hinterval : (0 : ℚ) < 2 := by norm_num
  have htimeout : (0 : ℚ) ≤ 3 := by norm_num
  have hstart : Watch.looks ⟨5, []⟩ = [] := rfl
  have hlast : ⌈(3 : ℚ) / 2⌉₊ = 2 := by norm_num [Nat.ceil_eq_iff]
  obtain ⟨answer, s', hwait, htimes, hunsealed, _⟩ :=
    deadline_kept (Watch.exact (.id []) fun _ => pendingResult) (fun _ => "3") hinterval htimeout hstart
  have hpending : ¬Final pendingResult := by
    rintro (h | h) <;> cases h
  obtain ⟨rfl, hnow, hlength⟩ := hunsealed fun _ _ => hpending
  rw [hlast] at hwait hlength
  obtain ⟨a, b, c, hlooks⟩ := List.length_eq_three.mp hlength
  rw [hlooks] at htimes
  obtain ⟨rfl, _⟩ := htimes 0 a rfl
  obtain ⟨rfl, _⟩ := htimes 1 b rfl
  obtain ⟨rfl, _⟩ := htimes 2 c rfl
  refine ⟨s', hwait, hnow.trans (by norm_num), hlooks.trans ?_⟩
  norm_num

end Signatory.Poll
