import Mathlib.Algebra.Order.Group.Unbundled.Basic
import Mathlib.Algebra.Order.Monoid.Defs
import Signatory.Proofs.OrderedMap
import Signatory.Proofs.RateLimit.Store

/-! What becomes of messages that are to be logged at most once in an interval, where time is exact and does not go
back. A message is suppressed exactly when it has been logged less than its interval ago, nothing has been forgotten
since, and fewer messages of that interval have been logged since than a store has room for. -/

namespace Signatory.RateLimiter
set_option autoImplicit false

/-- What a limiter is asked to do. -/
inductive Request (τ : Type) where
  | log (time interval : τ) (level message : Text)
  | forget

/-- A message that was to be logged, and the line if it was. -/
structure Call (τ : Type) where
  time : τ
  interval : τ
  level : Text
  message : Text
  line : Option LogLine

inductive Event (τ : Type) where
  | called (c : Call τ)
  | forgotten

/-- What tells the message of a call apart. -/
def Call.key {τ : Type} (c : Call τ) : Text := RateLimiter.key c.level c.message

section

variable {τ : Type}

def Call.request (c : Call τ) : Request τ := .log c.time c.interval c.level c.message

/-- The same text at the same level. -/
def Call.Repeats (c b : Call τ) : Prop := b.level = c.level ∧ b.message = c.message

theorem Call.Repeats.key_eq {b c : Call τ} (h : c.Repeats b) : b.key = c.key := by
  rw [key, key, h.1, h.2]

theorem Call.request_inj {b c : Call τ} (h : b.request = c.request) :
    b.time = c.time ∧ b.interval = c.interval ∧ c.Repeats b := Request.log.inj h

/-- The times at which something is to be logged. -/
def times (requests : List (Request τ)) : List τ :=
  requests.filterMap fun
    | .log time _ _ _ => some time
    | .forget => none

theorem times_request (calls : List (Call τ)) : times (calls.map Call.request) = calls.map Call.time := by
  rw [times, List.filterMap_map, ← List.filterMap_eq_map]
  rfl

theorem mem_times_concat {requests : List (Request τ)} {t time interval : τ} {level message : Text} :
    t ∈ times (requests ++ [.log time interval level message]) ↔ t ∈ times requests ∨ t = time := by
  rw [times, List.filterMap_append, List.mem_append]
  exact or_congr_right List.mem_singleton

variable [LinearOrder τ]

def Chronological (requests : List (Request τ)) : Prop := (times requests).Pairwise (· ≤ ·)

instance (requests : List (Request τ)) : Decidable (Chronological requests) :=
  inferInstanceAs (Decidable ((times requests).Pairwise (· ≤ ·)))

theorem Chronological.of_append {requests rest : List (Request τ)} (h : Chronological (requests ++ rest)) :
    Chronological requests := by
  rw [Chronological, times, List.filterMap_append] at h
  exact (List.pairwise_append.mp h).1

theorem Chronological.le_of_concat {requests : List (Request τ)} {time interval : τ} {level message : Text}
    (h : Chronological (requests ++ [.log time interval level message])) : ∀ t ∈ times requests, t ≤ time := by
  rw [Chronological, times, List.filterMap_append] at h
  exact fun t ht => (List.pairwise_append.mp h).2.2 t ht time (List.mem_singleton_self time)

theorem recent_replace (i j : τ) (messages : RecentMessages τ) (limiter : RateLimiter τ) :
    (limiter.replace i messages).recent j = if i = j then messages else limiter.recent j := by
  have hrecent (k : τ) (l : RateLimiter τ) : l.recent k = (Entries.find? k l).getD [] := by
    induction l with
    | nil => rfl
    | cons e l ih =>
      rw [recent] at ih ⊢
      rw [List.find?_cons, Entries.find?]
      cases e.1 == k
      · exact ih
      · rfl
  have hreplace (l : RateLimiter τ) : l.replace i messages = Entries.insert i messages l := by
    induction l with
    | nil => rfl
    | cons e l ih => rw [replace, Entries.insert, ih]
  rw [hrecent, hreplace, Entries.find?_insert, hrecent]
  split <;> rfl

def Event.isLoggedUnder (interval : τ) : Event τ → Bool
  | called c => c.line.isSome && c.interval == interval
  | forgotten => false

theorem Event.isLoggedUnder_iff {interval : τ} {c : Call τ} :
    (called c).isLoggedUnder interval = true ↔ c.line.isSome = true ∧ c.interval = interval := by
  rw [isLoggedUnder, Bool.and_eq_true, beq_iff_eq]

theorem countP_isLoggedUnder {calls : List (Call τ)} {interval : τ} (hlines : ∀ c ∈ calls, c.line.isSome = true)
    (hintervals : ∀ c ∈ calls, c.interval = interval) :
    (calls.map Event.called).countP (Event.isLoggedUnder interval) = calls.length := by
  rw [List.countP_map, List.countP_eq_length]
  exact fun c hc => Event.isLoggedUnder_iff.mpr ⟨hlines c hc, hintervals c hc⟩

variable [Add τ] {limiter : RateLimiter τ} {time interval : τ} {level message : Text}

theorem log_of_live (h : (limiter.recent interval).isLive time (key level message) = true) :
    limiter.log time interval level message = (none, limiter) := by
  rw [log]
  exact if_pos h

theorem log_of_silent (h : (limiter.recent interval).isLive time (key level message) = false) :
    limiter.log time interval level message = (some ⟨.ofName level, message⟩,
      limiter.replace interval ((limiter.recent interval).store time interval (key level message))) := by
  rw [log]
  exact if_neg (Bool.not_eq_true _ ▸ h)

def Request.answer (limiter : RateLimiter τ) : Request τ → Event τ × RateLimiter τ
  | log time interval level message =>
    let (line, limiter) := limiter.log time interval level message
    (.called ⟨time, interval, level, message, line⟩, limiter)
  | forget => (.forgotten, limiter.forget)

/-- What becomes of requests that are made one after another. -/
def history (limiter : RateLimiter τ) : List (Request τ) → List (Event τ)
  | [] => []
  | r :: rest => (r.answer limiter).1 :: history (r.answer limiter).2 rest

def after (limiter : RateLimiter τ) (requests : List (Request τ)) : RateLimiter τ :=
  requests.foldl (fun limiter r => (r.answer limiter).2) limiter

theorem after_concat_log (requests : List (Request τ)) (time interval : τ) (level message : Text) :
    after limiter (requests ++ [.log time interval level message]) =
      ((after limiter requests).log time interval level message).2 := by
  rw [after, List.foldl_append]
  rfl

theorem after_concat_forget (requests : List (Request τ)) : after limiter (requests ++ [.forget]) = [] := by
  rw [after, List.foldl_append]
  rfl

theorem history_append (requests rest : List (Request τ)) :
    history limiter (requests ++ rest) = history limiter requests ++ history (after limiter requests) rest := by
  induction requests generalizing limiter with
  | nil => rfl
  | cons r requests ih => exact congrArg _ ih

theorem history_concat_log (requests : List (Request τ)) (time interval : τ) (level message : Text) :
    history limiter (requests ++ [.log time interval level message]) = history limiter requests ++
      [.called ⟨time, interval, level, message, ((after limiter requests).log time interval level message).1⟩] :=
  history_append requests _

theorem history_concat_forget (requests : List (Request τ)) :
    history limiter (requests ++ [.forget]) = history limiter requests ++ [.forgotten] :=
  history_append requests _

/-- A call in a history is the answer to a request, after those before it. -/
theorem exists_request {requests : List (Request τ)} {earlier later : List (Event τ)} {c : Call τ}
    (h : history limiter requests = earlier ++ .called c :: later) :
    ∃ past rest, requests = past ++ .log c.time c.interval c.level c.message :: rest ∧
      history limiter past = earlier ∧ c.line = ((after limiter past).log c.time c.interval c.level c.message).1 := by
  induction requests generalizing limiter earlier with
  | nil => cases earlier <;> cases h
  | cons r requests ih =>
    cases earlier with
    | nil =>
      obtain ⟨hcall, _⟩ := List.cons.inj h
      cases r with
      | forget => cases hcall
      | log time interval level message =>
        obtain rfl := Event.called.inj hcall
        exact ⟨[], requests, rfl, rfl, rfl⟩
    | cons e earlier =>
      obtain ⟨rfl, hrest⟩ := List.cons.inj h
      obtain ⟨past, rest, rfl, hpast, hline⟩ := ih hrest
      exact ⟨r :: past, rest, rfl, congrArg _ hpast, hline⟩

/-- Where nothing is forgotten, calls are answered one by one. -/
theorem exists_answered (calls : List (Call τ)) (limiter : RateLimiter τ) : ∃ answered : List (Call τ),
    history limiter (calls.map Call.request) = answered.map .called ∧
      List.Forall₂ (fun c a => c.request = a.request) calls answered := by
  induction calls generalizing limiter with
  | nil => exact ⟨[], rfl, .nil⟩
  | cons c calls ih =>
    obtain ⟨answered, hanswered, hsame⟩ := ih (c.request.answer limiter).2
    exact ⟨⟨c.time, c.interval, c.level, c.message, (limiter.log c.time c.interval c.level c.message).1⟩ :: answered,
      congrArg _ hanswered, .cons rfl hsame⟩

theorem mem_times_of_called {requests : List (Request τ)} {c : Call τ} (h : .called c ∈ history limiter requests) :
    c.time ∈ times requests := by
  obtain ⟨earlier, later, hsplit⟩ := List.append_of_mem h
  obtain ⟨past, rest, rfl, _, _⟩ := exists_request hsplit
  rw [times, List.filterMap_append]
  exact List.mem_append_right _ List.mem_cons_self

/-- The messages of an interval that have been logged since the last time that all were forgotten. -/
def logged (interval : τ) (events : List (Event τ)) : RecentMessages τ :=
  events.foldl (fun messages e =>
    match e with
    | .called c => if e.isLoggedUnder interval then messages ++ [(c.key, c.time + interval)] else messages
    | .forgotten => []) []

theorem logged_concat_called (events : List (Event τ)) (c : Call τ) : logged interval (events ++ [.called c]) =
    if c.line.isSome = true ∧ c.interval = interval then logged interval events ++ [(c.key, c.time + interval)]
    else logged interval events := by
  rw [logged, List.foldl_append]
  exact if_congr Event.isLoggedUnder_iff rfl rfl

theorem logged_concat_forgotten (events : List (Event τ)) : logged interval (events ++ [.forgotten]) = [] := by
  rw [logged, List.foldl_append]
  rfl

/-- A call after which nothing was forgotten has its message among those that have been logged, followed by those of the
calls since. -/
theorem exists_suffix_logged (earlier : List (Event τ)) {between : List (Event τ)} {c : Call τ}
    (hbetween : .forgotten ∉ between)
    (hc : c.line.isSome = true ∧ c.interval = interval) :
    ∃ later, (c.key, c.time + interval) :: later <:+ logged interval (earlier ++ .called c :: between) ∧
      later.length = between.countP (Event.isLoggedUnder interval) := by
  induction between using List.reverseRecOn with
  | nil =>
    rw [logged_concat_called, if_pos hc]
    exact ⟨[], List.suffix_append _ _, rfl⟩
  | append_singleton between e ih =>
    rw [List.mem_append, not_or] at hbetween
    obtain ⟨later, hlater, hlength⟩ := ih hbetween.1
    rw [← List.cons_append, ← List.append_assoc, List.countP_append, List.countP_singleton]
    cases e with
    | forgotten => exact absurd (List.mem_singleton_self _) hbetween.2
    | called d =>
      rw [logged_concat_called]
      split
      · rename_i hd
        rw [if_pos (Event.isLoggedUnder_iff.mpr hd), ← hlength]
        refine ⟨later ++ [(d.key, d.time + interval)], ?_, List.length_append⟩
        rw [← List.cons_append, List.suffix_append_self_iff]
        exact hlater
      · rename_i hd
        rw [if_neg (mt Event.isLoggedUnder_iff.mp hd)]
        exact ⟨later, hlater, hlength⟩

/-- A message that has been logged and not been forgotten has a call, and each message after it a later one. -/
theorem exists_called_of_suffix {events : List (Event τ)} {m : Text × τ} {later : RecentMessages τ}
    (h : m :: later <:+ logged interval events) :
    ∃ earlier c between, events = earlier ++ .called c :: between ∧ .forgotten ∉ between ∧
      (c.line.isSome = true ∧ c.interval = interval) ∧ m = (c.key, c.time + interval) ∧
      later.length = between.countP (Event.isLoggedUnder interval) := by
  induction events using List.reverseRecOn generalizing later with
  | nil => cases List.suffix_nil.mp h
  | append_singleton events e ih =>
    cases e with
    | forgotten =>
      rw [logged_concat_forgotten] at h
      cases List.suffix_nil.mp h
    | called d =>
      rw [logged_concat_called] at h
      split at h
      · rename_i hd
        rcases List.suffix_concat_iff.mp h with hnil | ⟨front, hfront, hold⟩
        · cases hnil
        cases front with
        | nil =>
          obtain ⟨rfl, rfl⟩ := List.cons.inj hfront
          exact ⟨events, d, [], rfl, List.not_mem_nil, hd, rfl, rfl⟩
        | cons n front =>
          rw [List.cons_append] at hfront
          obtain ⟨rfl, rfl⟩ := List.cons.inj hfront
          obtain ⟨earlier, c, between, rfl, hbetween, hc, hm, hlength⟩ := ih hold
          refine ⟨earlier, c, between ++ [.called d], ?_, ?_, hc, hm, ?_⟩
          · rw [List.append_assoc, List.cons_append]
          · simpa using hbetween
          · rw [List.length_append, hlength, List.countP_append, List.countP_singleton,
              if_pos (Event.isLoggedUnder_iff.mpr hd)]
            rfl
      · rename_i hd
        obtain ⟨earlier, c, between, rfl, hbetween, hc, hm, hlength⟩ := ih h
        refine ⟨earlier, c, between ++ [.called d], ?_, ?_, hc, hm, ?_⟩
        · rw [List.append_assoc, List.cons_append]
        · simpa using hbetween
        · rw [hlength, List.countP_append, List.countP_singleton, if_neg (mt Event.isLoggedUnder_iff.mp hd)]
          rfl

end

section

variable {τ : Type} [AddCommGroup τ] [LinearOrder τ] [IsOrderedAddMonoid τ] {interval : τ}

/-- What has been logged of an interval expires in that order, each message an interval after its time. -/
theorem ordered_logged {requests : List (Request τ)} (h : Chronological requests) :
    (logged interval (history [] requests)).Ordered ∧
      ∀ m ∈ logged interval (history [] requests), ∃ t ∈ times requests, m.2 = t + interval := by
  induction requests using List.reverseRecOn with
  | nil => exact ⟨List.Pairwise.nil, nofun⟩
  | append_singleton requests r ih =>
    obtain ⟨hordered, hexpiry⟩ := ih h.of_append
    cases r with
    | forget =>
      rw [history_concat_forget, logged_concat_forgotten]
      exact ⟨List.Pairwise.nil, nofun⟩
    | log time i level message =>
      have hlast := h.le_of_concat
      have hold : ∀ m ∈ logged interval (history [] requests),
          ∃ t ∈ times (requests ++ [.log time i level message]), m.2 = t + interval := by
        intro m hm
        obtain ⟨t, ht, hm⟩ := hexpiry m hm
        exact ⟨t, mem_times_concat.mpr (.inl ht), hm⟩
      rw [history_concat_log, logged_concat_called]
      split
      · refine ⟨List.pairwise_append.mpr ⟨hordered, List.pairwise_singleton _ _, ?_⟩, ?_⟩
        · intro m hm n hn
          obtain rfl := List.mem_singleton.mp hn
          obtain ⟨t, ht, hm⟩ := hexpiry m hm
          rw [hm]
          exact add_le_add (hlast t ht) le_rfl
        · intro m hm
          rcases List.mem_append.mp hm with hm | hm
          · exact hold m hm
          · obtain rfl := List.mem_singleton.mp hm
            exact ⟨time, mem_times_concat.mpr (.inr rfl), rfl⟩
      · exact ⟨hordered, hold⟩

/-- The store of an interval recalls what has been logged of it. -/
theorem recalls {requests : List (Request τ)} (h : Chronological requests) {now : τ}
    (hnow : ∀ t ∈ times requests, t ≤ now) :
    RecentMessages.Recalls now (logged interval (history [] requests)) ((after [] requests).recent interval) := by
  induction requests using List.reverseRecOn generalizing now with
  | nil => exact RecentMessages.recalls_nil
  | append_singleton requests r ih =>
    cases r with
    | forget =>
      rw [history_concat_forget, logged_concat_forgotten, after_concat_forget]
      exact RecentMessages.recalls_nil
    | log time i level message =>
      have hlast := hnow time (mem_times_concat.mpr (.inr rfl))
      have hrecalls := ih h.of_append h.le_of_concat
      rw [history_concat_log, logged_concat_called, after_concat_log]
      cases hlive : ((after [] requests).recent i).isLive time (key level message) with
      | true =>
        rw [log_of_live hlive, if_neg (fun hline => Bool.false_ne_true hline.1)]
        exact hrecalls.mono hlast
      | false =>
        rw [log_of_silent hlive, recent_replace]
        by_cases hi : i = interval
        · subst hi
          rw [if_pos ⟨rfl, rfl⟩, if_pos rfl]
          exact (hrecalls.store le_rfl (ordered_logged h.of_append).1 hlive).mono hlast
        · rw [if_neg (fun hsame => hi hsame.2), if_neg hi]
          exact hrecalls.mono hlast

end

end Signatory.RateLimiter
