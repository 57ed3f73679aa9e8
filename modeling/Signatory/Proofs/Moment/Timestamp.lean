import Mathlib.Data.Prod.Lex
import Signatory.Proofs.Moment.Date
import Signatory.Wire.Record

/-! Instants as they travel. A reading of a clock is told by its date, its time of day and its offset; what it travels as
tells its instant and nothing else, and keeps the order of instants. -/

namespace Signatory
set_option autoImplicit false

namespace Civil

/-- A clock can show the reading. -/
structure Valid (c : Civil) : Prop where
  date : c.date.Valid
  year : 1 ≤ c.date.year ∧ c.date.year ≤ 9999
  hour : 0 ≤ c.hour ∧ c.hour < 24
  minute : 0 ≤ c.minute ∧ c.minute < 60
  second : 0 ≤ c.second ∧ c.second < 60
  micro : 0 ≤ c.micro ∧ c.micro < 1000000

def secondOfDay (c : Civil) : Int := (c.hour * 60 + c.minute) * 60 + c.second

/-- Microseconds from the start of 1970 to the reading. -/
def micros (c : Civil) : Int := (c.date.toDays * 86400 + c.secondOfDay) * 1000000 + c.micro

variable {c : Civil}

theorem Valid.secondOfDay_bounds (h : c.Valid) : 0 ≤ c.secondOfDay ∧ c.secondOfDay < 86400 := by
  have hhour := h.hour
  have hminute := h.minute
  have hsecond := h.second
  rw [secondOfDay]
  omega

end Civil

namespace Moment

theorem second_eq : second = 1000000 := rfl

theorem micros_civil (t : Moment) : t.civil.micros = t.micros := by
  rw [Civil.micros, Civil.secondOfDay, civil, second_eq, Date.toDays_ofDays]
  dsimp only
  omega

/-- What a clock shows at the microsecond of a reading is the reading. -/
theorem civil_micros {c : Civil} (h : c.Valid) (offset : Option Int) : civil ⟨c.micros, offset⟩ = c := by
  obtain ⟨hleast, hless⟩ := h.secondOfDay_bounds
  have hmicro := h.micro
  have hseconds : c.micros / 1000000 = c.date.toDays * 86400 + c.secondOfDay := by
    rw [Civil.micros]
    omega
  have hdays : (c.date.toDays * 86400 + c.secondOfDay) / 86400 = c.date.toDays := by omega
  have hofDay : (c.date.toDays * 86400 + c.secondOfDay) % 86400 = c.secondOfDay := by omega
  have hrest : c.micros % 1000000 = c.micro := by
    rw [Civil.micros]
    omega
  have hminute := h.minute
  have hsecond := h.second
  simp only [civil, second_eq, hseconds, hdays, hofDay, hrest, Date.ofDays_toDays h.date]
  have htime : c.secondOfDay / 3600 = c.hour ∧ c.secondOfDay / 60 % 60 = c.minute ∧ c.secondOfDay % 60 = c.second := by
    rw [Civil.secondOfDay]
    omega
  rw [htime.1, htime.2.1, htime.2.2]

theorem inCalendar_seconds_iff (micros : Int) :
    inCalendar micros = true ↔ -62135596800 ≤ micros / 1000000 ∧ micros / 1000000 ≤ 253402300799 := by
  rw [inCalendar, Bool.and_eq_true, decide_eq_true_eq, decide_eq_true_eq, firstSecond, lastSecond, second_eq]

/-- The first and the last second are those of the years 1 and 9999. -/
theorem inCalendar_iff (micros : Int) (offset : Option Int) :
    inCalendar micros = true ↔ 1 ≤ (civil ⟨micros, offset⟩).date.year ∧ (civil ⟨micros, offset⟩).date.year ≤ 9999 := by
  have hvalid := Date.valid_ofDays (micros / 1000000 / 86400)
  have hdays := Date.toDays_ofDays (micros / 1000000 / 86400)
  have hyear : (civil ⟨micros, offset⟩).date = Date.ofDays (micros / 1000000 / 86400) := rfl
  have hfirst := hvalid.le_year_iff 1
  have hlast := hvalid.le_year_iff 10000
  rw [Date.toDays] at hdays
  have hepoch : Date.ordinal ⟨1970, 1, 1⟩ = 719163 := rfl
  have hone : Date.daysBeforeYear 1 = 0 := rfl
  have htenThousand : Date.daysBeforeYear 10000 = 3652059 := rfl
  rw [inCalendar_seconds_iff, hyear]
  omega

/-- The readings of a clock are those that a clock can show. -/
theorem valid_civil_iff (t : Moment) : t.civil.Valid ↔ inCalendar t.micros = true := by
  constructor
  · intro h
    exact (inCalendar_iff t.micros t.offset).mpr h.year
  · intro h
    have hyear := (inCalendar_iff t.micros t.offset).mp h
    refine ⟨Date.valid_ofDays _, hyear, ?_, ?_, ?_, ?_⟩ <;> dsimp only [civil] <;> rw [second_eq] <;> omega

theorem inCalendar_micros {c : Civil} (h : c.Valid) : inCalendar c.micros = true := by
  apply (valid_civil_iff ⟨c.micros, none⟩).mp
  rw [civil_micros h]
  exact h

theorem make_eq_ok {micros : Int} {offset : Option Int} (hmicros : inCalendar micros = true)
    (hoffset : ∀ ahead, offset = some ahead → -day < ahead ∧ ahead < day) : make micros offset = .ok ⟨micros, offset⟩ := by
  unfold make
  rw [if_pos hmicros]
  cases offset with
  | none => rfl
  | some ahead =>
    have hday : day = 86400000000 := rfl
    rw [hday] at hoffset
    obtain ⟨hleast, hless⟩ := hoffset ahead rfl
    have hsmall : ¬maxOffsetDays < (ahead / 86400000000).natAbs := by
      rw [maxOffsetDays]
      omega
    have hshort : ¬(86400000000 : Int) ≤ ahead.natAbs := by omega
    simp only [checkOffset, hday, if_neg hsmall, if_neg hshort]
    rfl

end Moment

namespace Timestamp

/-- What stands for an instant in the years 1 to 9999. -/
structure InRange (w : Timestamp) : Prop where
  seconds : -62135596800 ≤ w.seconds ∧ w.seconds ≤ 253402300799
  nanos : 0 ≤ w.nanos ∧ w.nanos ≤ 999999999

variable {w : Timestamp}

theorem ofWire_toWire (w : Timestamp) : ofWire w.toWire = .ok w := rfl

theorem toWire_injective : Function.Injective toWire := by
  intro w x h
  have hread := congrArg ofWire h
  rw [ofWire_toWire, ofWire_toWire] at hread
  exact Except.ok.inj hread

theorem toMoment_eq_ok (h : w.InRange) : w.toMoment = .ok ⟨w.seconds * 1000000 + w.nanos / 1000, some 0⟩ := by
  have hseconds := h.seconds
  have hnanos := h.nanos
  rw [toMoment, Moment.firstSecond, Moment.lastSecond, if_pos (by omega), Moment.second_eq]

end Timestamp

namespace Moment

variable {t u : Moment} {w x : Timestamp}

theorem toTimestamp_eq_ok_iff : t.toTimestamp = .ok w ↔ inCalendar t.micros = true ∧ inCalendar t.utcMicros = true ∧
    w = ⟨t.utcMicros / 1000000, t.utcMicros % 1000000 * 1000⟩ := by
  rw [toTimestamp, second_eq, ← and_assoc, ← Bool.and_eq_true]
  split <;> rename_i h
  · rw [Except.ok.injEq, eq_comm, and_iff_right h]
  · exact iff_of_false nofun fun h' => h h'.1

/-- What a reading travels as is read as the reading of UTC at its instant. -/
theorem toMoment_of_toTimestamp (h : t.toTimestamp = .ok w) : w.toMoment = .ok ⟨t.utcMicros, some 0⟩ := by
  obtain ⟨_, hutc, rfl⟩ := toTimestamp_eq_ok_iff.mp h
  have hseconds := (inCalendar_seconds_iff _).mp hutc
  rw [Timestamp.toMoment_eq_ok ⟨hseconds, by dsimp only; omega⟩]
  dsimp only
  have hmicros : t.utcMicros / 1000000 * 1000000 + t.utcMicros % 1000000 * 1000 / 1000 = t.utcMicros := by omega
  rw [hmicros]

/-- The pair of seconds and nanoseconds tells which of two instants is the earlier one. -/
theorem utcMicros_lt_iff (ht : t.toTimestamp = .ok w) (hu : u.toTimestamp = .ok x) :
    t.utcMicros < u.utcMicros ↔ toLex (w.seconds, w.nanos) < toLex (x.seconds, x.nanos) := by
  obtain ⟨_, _, rfl⟩ := toTimestamp_eq_ok_iff.mp ht
  obtain ⟨_, _, rfl⟩ := toTimestamp_eq_ok_iff.mp hu
  rw [Prod.Lex.toLex_lt_toLex]
  dsimp only
  omega

theorem exists_toTimestamp (h : w.InRange) :
    ∃ t, w.toMoment = .ok t ∧ t.toTimestamp = .ok ⟨w.seconds, w.nanos / 1000 * 1000⟩ := by
  have hseconds := h.seconds
  have hnanos := h.nanos
  refine ⟨_, Timestamp.toMoment_eq_ok h, ?_⟩
  have hmicros : utcMicros ⟨w.seconds * 1000000 + w.nanos / 1000, some 0⟩ = w.seconds * 1000000 + w.nanos / 1000 := by
    rw [utcMicros, Option.getD_some, Int.sub_zero]
  have hwhole : (w.seconds * 1000000 + w.nanos / 1000) / 1000000 = w.seconds := by omega
  have hrest : (w.seconds * 1000000 + w.nanos / 1000) % 1000000 = w.nanos / 1000 := by omega
  have hcalendar : inCalendar (w.seconds * 1000000 + w.nanos / 1000) = true := by
    apply (inCalendar_seconds_iff _).mpr
    rw [hwhole]
    exact hseconds
  apply toTimestamp_eq_ok_iff.mpr
  rw [hmicros, hwhole, hrest]
  exact ⟨hcalendar, hcalendar, rfl⟩

theorem toWire_eq_ok_iff : t.toWire = .ok w.toWire ↔ t.toTimestamp = .ok w := by
  rw [toWire]
  cases ht : t.toTimestamp with
  | error e => exact iff_of_false nofun nofun
  | ok x =>
    rw [Except.map, Except.ok.injEq, Except.ok.injEq]
    exact Timestamp.toWire_injective.eq_iff

theorem ofWire_eq {v : Cbor.Value} (h : Timestamp.ofWire v = .ok w) : ofWire v = w.toMoment := by
  rw [ofWire, h]
  rfl

/-- Every reading with an offset, or without one, travels as the instant that it tells and is read as the reading of UTC at
that instant. What seconds and nanoseconds are read as travels as the same seconds and whole microseconds. Earlier instants
travel as smaller pairs. -/
theorem timestamps_tell_instants :
    (∀ (reading utc : Civil) (offset : Option Int), reading.Valid → utc.Valid →
      (∀ ahead, offset = some ahead → -day < ahead ∧ ahead < day) → reading.micros = utc.micros + offset.getD 0 →
      ∃ t v t', make reading.micros offset = .ok t ∧ t.civil = reading ∧ t.toWire = .ok v ∧ ofWire v = .ok t' ∧
        t'.civil = utc ∧ t'.offset = some 0 ∧ t'.utcMicros = t.utcMicros) ∧
    (∀ v w, Timestamp.ofWire v = .ok w → w.InRange →
      ∃ t, ofWire v = .ok t ∧ t.toWire = .ok (Timestamp.toWire ⟨w.seconds, w.nanos / 1000 * 1000⟩)) ∧
    ∀ (t u : Moment) (w x : Timestamp), t.toWire = .ok w.toWire → u.toWire = .ok x.toWire →
      (t.utcMicros < u.utcMicros ↔ toLex (w.seconds, w.nanos) < toLex (x.seconds, x.nanos)) := by
  refine ⟨?_, ?_, ?_⟩
  · intro reading utc offset hreading hutc hoffset hsame
    have hmade := make_eq_ok (inCalendar_micros hreading) hoffset
    have hinstant : utcMicros ⟨reading.micros, offset⟩ = utc.micros := by
      rw [utcMicros, hsame, Int.add_sub_cancel]
    have hsent : toTimestamp ⟨reading.micros, offset⟩ =
        .ok ⟨utc.micros / 1000000, utc.micros % 1000000 * 1000⟩ := by
      apply toTimestamp_eq_ok_iff.mpr
      rw [hinstant]
      exact ⟨inCalendar_micros hreading, inCalendar_micros hutc, rfl⟩
    have hread := toMoment_of_toTimestamp hsent
    rw [hinstant] at hread
    refine ⟨_, _, ⟨utc.micros, some 0⟩, hmade, civil_micros hreading offset, toWire_eq_ok_iff.mpr hsent, ?_,
      civil_micros hutc _, rfl, ?_⟩
    · rw [ofWire_eq (Timestamp.ofWire_toWire _), hread]
    · rw [hinstant, utcMicros, Option.getD_some, Int.sub_zero]
  · intro v w hv hw
    obtain ⟨t, hread, hsent⟩ := exists_toTimestamp hw
    exact ⟨t, (ofWire_eq hv).trans hread, toWire_eq_ok_iff.mpr hsent⟩
  · intro t u w x ht hu
    exact utcMicros_lt_iff (toWire_eq_ok_iff.mp ht) (toWire_eq_ok_iff.mp hu)

/-- Half an hour into March of a year without a leap day, on a clock that is nearly six hours ahead. -/
def earlyMarch : Civil := ⟨⟨1900, 3, 1⟩, 0, 30, 0, 1⟩

def lateFebruary : Civil := ⟨⟨1900, 2, 28⟩, 18, 36, 32, 1⟩

def nearlySixHours : Int := 5 * hour + 53 * minute + 28 * second

theorem timestamps_tell_instants_march :
    (earlyMarch.Valid ∧ lateFebruary.Valid ∧ earlyMarch.micros = lateFebruary.micros + nearlySixHours) ∧
    (∃ t v t', make earlyMarch.micros (some nearlySixHours) = .ok t ∧ t.civil = earlyMarch ∧ t.toWire = .ok v ∧
      ofWire v = .ok t' ∧ t'.civil = lateFebruary ∧ t'.offset = some 0 ∧ t'.utcMicros = t.utcMicros) ∧
    (∃ t, ofWire (Timestamp.toWire ⟨-2203910608, 1999⟩) = .ok t ∧
      t.toWire = .ok (Timestamp.toWire ⟨-2203910608, 1000⟩)) ∧
    (utcMicros ⟨earlyMarch.micros, some nearlySixHours⟩ < utcMicros ⟨0, none⟩ ∧
      toLex ((-2203910608, 1000) : Int × Int) < toLex ((0, 0) : Int × Int)) := by
  have hreading : earlyMarch.Valid := ⟨⟨by decide, by decide⟩, by decide, by decide, by decide, by decide, by decide⟩
  have hutc : lateFebruary.Valid := ⟨⟨by decide, by decide⟩, by decide, by decide, by decide, by decide, by decide⟩
  have hsame : earlyMarch.micros = lateFebruary.micros + nearlySixHours := by decide
  have hearlier : utcMicros ⟨earlyMarch.micros, some nearlySixHours⟩ < utcMicros ⟨0, none⟩ := by decide
  obtain ⟨hround, hwire, horder⟩ := timestamps_tell_instants
  refine ⟨⟨hreading, hutc, hsame⟩, hround _ _ (some nearlySixHours) hreading hutc ?_ hsame, ?_, hearlier, ?_⟩
  · intro ahead hahead
    obtain rfl := Option.some.inj hahead
    decide
  · exact hwire _ ⟨-2203910608, 1999⟩ rfl ⟨by decide, by decide⟩
  · exact (horder _ _ ⟨-2203910608, 1000⟩ ⟨0, 0⟩ rfl rfl).mp hearlier

end Moment

end Signatory
