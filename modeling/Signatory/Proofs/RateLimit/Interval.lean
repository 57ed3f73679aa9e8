import Mathlib.Algebra.Order.Group.Int
import Signatory.Proofs.Lists
import Signatory.Proofs.RateLimit.History

/-! When a message is suppressed, and when the interval between two lines of one message is kept. Both hang on the room in
the store of an interval, which all messages with that interval share. -/

namespace Signatory.RateLimiter
set_option autoImplicit false

section

variable {τ : Type}

/-- A message was logged by a call under an interval, and has not been forgotten in what came after. -/
structure LoggedBy (events : List (Event τ)) (interval : τ) (key : Text) (c : Call τ) (between : List (Event τ)) : Prop where
  split : ∃ earlier, events = earlier ++ .called c :: between
  unforgotten : .forgotten ∉ between
  line : c.line.isSome = true
  interval : c.interval = interval
  key : c.key = key

namespace LoggedBy

variable {events between : List (Event τ)} {interval : τ} {key : Text} {b c : Call τ}

theorem mem (h : LoggedBy events interval key c between) : .called c ∈ events := by
  obtain ⟨earlier, rfl⟩ := h.split
  exact List.mem_append_right earlier List.mem_cons_self

/-- What only the first of some calls can have logged has all others after it. -/
theorem eq_of_first {cs : List (Call τ)} (h : LoggedBy ((b :: cs).map .called) interval key c between)
    (hothers : key ∉ cs.map Call.key) : between = cs.map .called := by
  obtain ⟨earlier, hsplit⟩ := h.split
  cases earlier with
  | nil => exact (List.cons.inj hsplit).2.symm
  | cons e earlier =>
    have hmem : Event.called c ∈ cs.map Event.called :=
      (List.cons.inj hsplit).2 ▸ List.mem_append_right earlier List.mem_cons_self
    obtain ⟨c', hc', hsame⟩ := List.mem_map.mp hmem
    obtain rfl := Event.called.inj hsame
    exact absurd (List.mem_map.mpr ⟨c', hc', h.key⟩) hothers

end LoggedBy

end

variable {τ : Type} [AddCommGroup τ] [LinearOrder τ] [IsOrderedAddMonoid τ]

/-- A message is suppressed if it has been logged less than its interval ago, and its store has had room for all messages
since. -/
theorem log_eq_none_iff {past : List (Request τ)} {now interval : τ} {level message : Text}
    (h : Chronological (past ++ [.log now interval level message])) :
    ((after [] past).log now interval level message).1 = none ↔
      ∃ c between, LoggedBy (history [] past) interval (key level message) c between ∧ now < c.time + interval ∧
        between.countP (Event.isLoggedUnder interval) < RecentMessages.capacity := by
  have hrecalls : RecentMessages.Recalls now (logged interval (history [] past)) ((after [] past).recent interval) :=
    recalls h.of_append h.le_of_concat
  have hsilent : ((after [] past).log now interval level message).1 = none ↔
      ((after [] past).recent interval).isLive now (key level message) = true := by
    cases hlive : ((after [] past).recent interval).isLive now (key level message) with
    | true => simp [log_of_live hlive]
    | false => simp [log_of_silent hlive]
  rw [hsilent, hrecalls.isLive_iff]
  constructor
  · rintro ⟨m, later, hlater, hkey, hlive, hfew⟩
    obtain ⟨earlier, c, between, hsplit, hbetween, ⟨hline, hinterval⟩, rfl, hlength⟩ := exists_called_of_suffix hlater
    exact ⟨c, between, ⟨⟨earlier, hsplit⟩, hbetween, hline, hinterval, hkey⟩, hlive, hlength ▸ hfew⟩
  · rintro ⟨c, between, hc, hlive, hfew⟩
    obtain ⟨earlier, hsplit⟩ := hc.split
    obtain ⟨later, hlater, hlength⟩ := exists_suffix_logged earlier hc.unforgotten ⟨hc.line, hc.interval⟩
    rw [← hsplit] at hlater
    exact ⟨_, later, hlater, hc.key, hlive, hlength ▸ hfew⟩

/-- Whatever is suppressed was logged before, with the same interval, level and text, less than the interval ago, and not
forgotten since. And so it is whenever fewer messages have been logged since than a store holds. -/
theorem suppressed_iff_logged_lately {past : List (Request τ)} {now interval : τ} {level message : Text}
    (h : Chronological (past ++ [.log now interval level message])) :
    ((after [] past).log now interval level message).1 = none ↔
      ∃ c between, LoggedBy (history [] past) interval (key level message) c between ∧ c.time ≤ now ∧
        now - c.time < interval ∧ between.countP (Event.isLoggedUnder interval) < RecentMessages.capacity := by
  rw [log_eq_none_iff h]
  constructor
  · rintro ⟨c, between, hc, hlive, hfew⟩
    exact ⟨c, between, hc, h.le_of_concat _ (mem_times_of_called hc.mem), sub_lt_iff_lt_add'.mpr hlive, hfew⟩
  · rintro ⟨c, between, hc, _, hlive, hfew⟩
    exact ⟨c, between, hc, sub_lt_iff_lt_add'.mp hlive, hfew⟩

/-- A message that returns within ten seconds of its second line; the first one has been forgotten. -/
def ticks : List (Request Int) :=
  [.log 0 10 "warning" "tick", .forget, .log 1 10 "warning" "tick", .log 2 10 "error" "tick"]

theorem suppressed_iff_logged_lately_tick : ((after [] ticks).log 5 10 "warning" "tick").1 = none ∧
    ∃ c between, LoggedBy (history [] ticks) 10 (key "warning" "tick") c between ∧ c.time ≤ 5 ∧ 5 - c.time < 10 ∧
      between.countP (Event.isLoggedUnder 10) < RecentMessages.capacity := by
  have hchronological : Chronological (ticks ++ [.log 5 10 "warning" "tick"]) := by decide
  have hsuppressed : ((after [] ticks).log 5 10 "warning" "tick").1 = none := by decide
  exact ⟨hsuppressed, (suppressed_iff_logged_lately hchronological).mp hsuppressed⟩

/-- Of two calls that log one message with one level and interval, with nothing forgotten in between, the second comes no
earlier than the interval after the first. -/
def IntervalKept (events : List (Event τ)) : Prop :=
  ∀ earlier c later, events = earlier ++ .called c :: later → c.line.isSome = true →
    ∀ b between, LoggedBy earlier c.interval c.key b between → c.Repeats b → c.interval ≤ c.time - b.time

/-- Whenever a message returns within its interval, it has been logged so lately that fewer messages of that interval have
been logged since than its store has room for. -/
def NeverCrowded (events : List (Event τ)) : Prop :=
  ∀ earlier c later, events = earlier ++ .called c :: later →
    ∀ b between, LoggedBy earlier c.interval c.key b between → c.Repeats b → c.time - b.time < c.interval →
      ∃ b' between', LoggedBy earlier c.interval c.key b' between' ∧ c.time - b'.time < c.interval ∧
        between'.countP (Event.isLoggedUnder c.interval) < RecentMessages.capacity

/-- What a call in a history was answered is decided by the calls before it. -/
theorem line_eq_none_iff {requests : List (Request τ)} (h : Chronological requests) {earlier later : List (Event τ)}
    {c : Call τ} (hsplit : history [] requests = earlier ++ .called c :: later) :
    c.line = none ↔ ∃ b between, LoggedBy earlier c.interval c.key b between ∧ c.time < b.time + c.interval ∧
      between.countP (Event.isLoggedUnder c.interval) < RecentMessages.capacity := by
  obtain ⟨past, rest, rfl, rfl, hline⟩ := exists_request hsplit
  rw [← List.singleton_append, ← List.append_assoc] at h
  rw [hline]
  exact log_eq_none_iff h.of_append

/-- The interval between two lines of one message is kept throughout a history exactly if no message returns within it to
a store that has been filled with others since. -/
theorem interval_kept_iff {requests : List (Request τ)} (h : Chronological requests) :
    IntervalKept (history [] requests) ↔ NeverCrowded (history [] requests) := by
  constructor
  · intro hkept earlier c later hsplit b between hb hsame hearly
    have hsuppressed : c.line = none := by
      rw [← Option.not_isSome_iff_eq_none]
      intro hline
      exact absurd hearly (not_lt.mpr (hkept earlier c later hsplit hline b between hb hsame))
    obtain ⟨b', between', hb', hlive, hfew⟩ := (line_eq_none_iff h hsplit).mp hsuppressed
    exact ⟨b', between', hb', sub_lt_iff_lt_add'.mpr hlive, hfew⟩
  · intro hroomy earlier c later hsplit hline b between hb hsame
    rw [← not_lt]
    intro hearly
    obtain ⟨b', between', hb', hlive, hfew⟩ := hroomy earlier c later hsplit b between hb hsame hearly
    have hsuppressed := (line_eq_none_iff h hsplit).mpr ⟨b', between', hb', sub_lt_iff_lt_add'.mp hlive, hfew⟩
    rw [hsuppressed] at hline
    cases hline

omit [IsOrderedAddMonoid τ] in
/-- Where no more is asked than a store has room for, no store is filled. -/
theorem neverCrowded_of_length_le {events : List (Event τ)} (h : events.length ≤ RecentMessages.capacity) :
    NeverCrowded events := by
  rintro earlier c later rfl b between hb - hearly
  refine ⟨b, between, hb, hearly, ?_⟩
  obtain ⟨first, rfl⟩ := hb.split
  refine lt_of_le_of_lt (List.countP_le_length) (lt_of_lt_of_le ?_ h)
  simp only [List.length_append, List.length_cons]
  omega

theorem interval_kept_iff_thrice :
    IntervalKept (history [] [.log (0 : Int) 10 "warning" "tick", .log 5 10 "warning" "tick", .log 11 10 "warning" "tick"]) :=
  (interval_kept_iff (by decide)).mpr (neverCrowded_of_length_le (by decide))

/-- Calls for different messages are all logged. -/
theorem isSome_of_nodup {requests : List (Request τ)} (h : Chronological requests) {answered : List (Call τ)}
    (hanswered : history [] requests = answered.map .called) (hkeys : (answered.map Call.key).Nodup) :
    ∀ c ∈ answered, c.line.isSome = true := by
  intro c hc
  obtain ⟨earlier, later, rfl⟩ := List.append_of_mem hc
  rw [List.map_append, List.map_cons] at hanswered hkeys
  rw [Option.isSome_iff_ne_none]
  intro hnone
  obtain ⟨b, between, hb, _⟩ := (line_eq_none_iff h hanswered).mp hnone
  obtain ⟨b', hb', hsame⟩ := List.mem_map.mp hb.mem
  obtain rfl := Event.called.inj hsame
  exact (List.nodup_append.mp hkeys).2.2 _ (List.mem_map_of_mem hb') _ List.mem_cons_self hb.key

/-- As many other messages as a store has room for crowd a message out of it. When it returns it is logged, however early
that is. -/
theorem not_intervalKept_of_crowd {first again : Call τ} {others : List (Call τ)}
    (h : Chronological ((first :: others ++ [again]).map Call.request))
    (hkeys : ((first :: others).map Call.key).Nodup) (hinterval : ∀ c ∈ others, c.interval = first.interval)
    (hmany : RecentMessages.capacity ≤ others.length) (hinterval' : again.interval = first.interval)
    (hagain : again.Repeats first) (hearly : again.time - first.time < first.interval) :
    ¬IntervalKept (history [] ((first :: others ++ [again]).map Call.request)) := by
  rw [List.map_append, List.map_singleton] at h ⊢
  obtain ⟨answered, hanswered, hsame⟩ := exists_answered (first :: others) []
  have hsameKeys := Lists.map_eq_map (hsame.imp fun _ _ hrequest => (Call.request_inj hrequest).2.2.key_eq)
  have hlines := isSome_of_nodup h.of_append hanswered (hsameKeys ▸ hkeys)
  obtain ⟨a, as, hfirst, hothers, rfl⟩ := List.forall₂_cons_left_iff.mp hsame
  obtain ⟨htime, hfirstInterval, hlevel, hmessage⟩ := Call.request_inj hfirst
  have hrepeats : again.Repeats a := ⟨hlevel.symm.trans hagain.1, hmessage.symm.trans hagain.2⟩
  rw [hsameKeys, List.map_cons, List.nodup_cons, hrepeats.key_eq] at hkeys
  have hintervals : ∀ c ∈ as, c.interval = again.interval := by
    intro c hc
    obtain ⟨c', hc', hrequest⟩ := Lists.exists_of_mem_right hothers hc
    rw [← (Call.request_inj hrequest).2.1, hinterval c' hc', hinterval']
  have hcount := countP_isLoggedUnder (fun c hc => hlines c (List.mem_cons_of_mem a hc)) hintervals
  have hsome : ((after [] ((first :: others).map Call.request)).log again.time again.interval again.level
      again.message).1 ≠ none := by
    intro hnone
    obtain ⟨b, between, hb, _, hfew⟩ := (log_eq_none_iff h).mp hnone
    rw [hanswered] at hb
    rw [hb.eq_of_first hkeys.1, hcount, ← hothers.length_eq] at hfew
    exact absurd hmany (Nat.not_le_of_lt hfew)
  have hlogged : LoggedBy ((a :: as).map Event.called) again.interval again.key a (as.map Event.called) :=
    ⟨⟨[], rfl⟩, by simp, hlines a List.mem_cons_self, hfirstInterval.symm.trans hinterval'.symm, hrepeats.key_eq⟩
  rw [Call.request, history_concat_log, hanswered]
  intro hkept
  have hlate := hkept _ _ [] rfl (Option.isSome_iff_ne_none.mpr hsome) a _ hlogged hrepeats
  rw [hinterval', ← htime] at hlate
  exact absurd hearly (not_lt.mpr hlate)

/-- A message of one code point. -/
def briefCall (n : Fin RecentMessages.capacity) : Call Int := ⟨0, 60, "warning", [n.castLE (by decide)], none⟩

def firstCall : Call Int := ⟨0, 60, "warning", "first", none⟩

def crowd : List (Call Int) := firstCall :: (List.finRange RecentMessages.capacity).map briefCall

theorem briefCall_key_injective : Function.Injective fun n => (briefCall n).key := by
  intro m n h
  have hmessage : (briefCall m).message = (briefCall n).message :=
    List.append_cancel_right (List.append_cancel_left (List.append_cancel_left h))
  have hpoint := congrArg Fin.val (List.cons.inj hmessage).1
  exact Fin.ext hpoint

theorem nodup_crowd : (crowd.map Call.key).Nodup := by
  rw [crowd, List.map_cons, List.map_map, List.nodup_cons]
  constructor
  · intro h
    obtain ⟨n, _, hn⟩ := List.mem_map.mp h
    have hlength : 9 = firstCall.key.length := congrArg List.length hn
    exact absurd hlength (by decide)
  · exact (List.nodup_finRange _).map briefCall_key_injective

theorem chronological_crowd : Chronological ((crowd ++ [firstCall]).map Call.request) := by
  rw [Chronological, times_request]
  apply List.pairwise_of_forall_mem_list
  have hzero : ∀ t ∈ (crowd ++ [firstCall]).map Call.time, t = 0 := by
    intro t ht
    rw [crowd, List.map_append, List.map_cons, List.map_map, List.mem_append, List.mem_cons] at ht
    rcases ht with (rfl | ht) | ht
    · rfl
    · obtain ⟨n, _, rfl⟩ := List.mem_map.mp ht
      rfl
    · exact List.mem_singleton.mp ht
  intro s hs t ht
  rw [hzero s hs, hzero t ht]

/-- A message is logged twice at the same time, with 256 others between. -/
theorem interval_not_kept : Chronological ((crowd ++ [firstCall]).map Call.request) ∧
    ¬IntervalKept (history [] ((crowd ++ [firstCall]).map Call.request)) := by
  refine ⟨chronological_crowd,
    not_intervalKept_of_crowd chronological_crowd nodup_crowd ?_ ?_ rfl ⟨rfl, rfl⟩ (by decide)⟩
  · simp [briefCall, firstCall]
  · rw [List.length_map, List.length_finRange]

end Signatory.RateLimiter
