import Mathlib.Tactic.IntervalCases
import Signatory.Date

/-! Dates and days are counted alike: the days up to a date, year by year and month by month, lead back to that date, and
every count of days is that of one date. -/

namespace Signatory.Date
set_option autoImplicit false

/-- The calendar has the date. -/
structure Valid (d : Date) : Prop where
  month : 1 ≤ d.month ∧ d.month ≤ 12
  day : 1 ≤ d.day ∧ d.day ≤ daysIn d.year d.month

/-- The days from the start of the year 1 to the start of a year. -/
def daysBeforeYear (year : Int) : Int :=
  365 * (year - 1) + (year - 1) / 4 - (year - 1) / 100 + (year - 1) / 400

/-- The days of a year before a month. -/
def daysBeforeMonth (year month : Int) : Int :=
  ((List.range (month.toNat - 1)).map fun before : Nat => daysIn year (before + 1)).sum

/-- The place of a date in a count that begins with the first day of the year 1. -/
def ordinal (d : Date) : Int := daysBeforeYear d.year + daysBeforeMonth d.year d.month + d.day

theorem ordinal_mk (year month day : Int) :
    ordinal ⟨year, month, day⟩ = daysBeforeYear year + daysBeforeMonth year month + day := rfl

/-- The days from the first of January 1970 to a date. -/
def toDays (d : Date) : Int := d.ordinal - ordinal ⟨1970, 1, 1⟩

theorem isLeap_iff (year : Int) : isLeap year = true ↔ year % 4 = 0 ∧ (year % 100 ≠ 0 ∨ year % 400 = 0) := by
  simp [isLeap]

theorem daysBeforeYear_succ (year : Int) :
    daysBeforeYear (year + 1) = daysBeforeYear year + if isLeap year then 366 else 365 := by
  unfold daysBeforeYear
  split
  · rename_i h
    have hleap := (isLeap_iff year).mp h
    omega
  · rename_i h
    have hcommon := mt (isLeap_iff year).mpr h
    omega

theorem daysIn_february (year : Int) : daysIn year 2 = if isLeap year then 29 else 28 := rfl

/-- From March on the lengths of months return in groups of five. -/
theorem daysIn_of_march {month : Int} (year : Int) (h : 0 ≤ month ∧ month < 10) :
    daysIn year (month + 3) = (153 * (month + 1) + 2) / 5 - (153 * month + 2) / 5 := by
  obtain ⟨hleast, hless⟩ := h
  interval_cases month <;> rfl

theorem daysBeforeMonth_january (year : Int) : daysBeforeMonth year 1 = 0 := rfl

theorem daysBeforeMonth_succ {month : Int} (year : Int) (h : 1 ≤ month) :
    daysBeforeMonth year (month + 1) = daysBeforeMonth year month + daysIn year month := by
  have hcount : (month + 1).toNat - 1 = month.toNat - 1 + 1 := by omega
  have hlast : ((month.toNat - 1 : Nat) : Int) + 1 = month := by omega
  rw [daysBeforeMonth, hcount, List.range_succ, List.map_append, List.sum_append, List.map_singleton,
    List.sum_singleton, hlast, daysBeforeMonth]

theorem daysBeforeMonth_february (year : Int) : daysBeforeMonth year 2 = 31 :=
  daysBeforeMonth_succ year (by decide : (1 : Int) ≤ 1)

theorem daysBeforeMonth_of_march {month : Int} (year : Int) (h : 0 ≤ month ∧ month < 10) :
    daysBeforeMonth year (month + 3) = 31 + daysIn year 2 + (153 * month + 2) / 5 := by
  obtain ⟨hleast, hless⟩ := h
  induction month, hleast using Int.leInduction with
  | base =>
    have hmarch := daysBeforeMonth_succ year (by decide : (1 : Int) ≤ 2)
    rw [daysBeforeMonth_february] at hmarch
    exact hmarch.trans (Int.add_zero _).symm
  | succ month hleast ih =>
    have hbefore := ih (by omega)
    have hthis := daysIn_of_march year ⟨hleast, by omega⟩
    have hnext := daysBeforeMonth_succ year (by omega : 1 ≤ month + 3)
    rw [show month + 1 + 3 = month + 3 + 1 by omega, hnext, hbefore, hthis]
    omega

/-- A day of the year from March to February; the last one is there if that February has one. -/
structure OfMarch (year dayOfYear : Int) : Prop where
  range : 0 ≤ dayOfYear ∧ dayOfYear ≤ 365
  leap : dayOfYear = 365 → isLeap (year + 1) = true

namespace OfMarch

variable {year dayOfYear : Int}

theorem eq_of_lt {month : Int} (h : OfMarch year dayOfYear) (hmonth : month = (5 * dayOfYear + 2) / 153)
    (hless : month < 10) : ofMarch year dayOfYear = ⟨year, month + 3, dayOfYear - (153 * month + 2) / 5 + 1⟩ := by
  have hlate : ¬month + 3 ≤ 2 := by
    have := h.range
    omega
  simp only [ofMarch, ← hmonth, if_pos hless, if_neg hlate]

theorem eq_january (hleast : 306 ≤ dayOfYear) (hless : dayOfYear < 337) :
    ofMarch year dayOfYear = ⟨year + 1, 1, dayOfYear - 305⟩ := by
  have hmonth : (5 * dayOfYear + 2) / 153 = 10 := by omega
  rw [ofMarch, hmonth]
  apply congrArg (Date.mk (year + 1) 1)
  omega

theorem eq_february (hleast : 337 ≤ dayOfYear) (hmost : dayOfYear ≤ 365) :
    ofMarch year dayOfYear = ⟨year + 1, 2, dayOfYear - 336⟩ := by
  have hmonth : (5 * dayOfYear + 2) / 153 = 11 := by omega
  rw [ofMarch, hmonth]
  apply congrArg (Date.mk (year + 1) 2)
  omega

/-- The months from March to December, January, and February. -/
theorem cases (h : OfMarch year dayOfYear) :
    (∃ month, 0 ≤ month ∧ month < 10 ∧ month = (5 * dayOfYear + 2) / 153) ∨ (306 ≤ dayOfYear ∧ dayOfYear < 337) ∨
      (337 ≤ dayOfYear ∧ dayOfYear ≤ 365) := by
  obtain ⟨hleast, hmost⟩ := h.range
  by_cases hmonth : (5 * dayOfYear + 2) / 153 < 10
  · exact .inl ⟨_, by omega, hmonth, rfl⟩
  · right
    omega

theorem valid (h : OfMarch year dayOfYear) : (ofMarch year dayOfYear).Valid := by
  rcases h.cases with ⟨month, hleast, hless, hmonth⟩ | ⟨hleast, hless⟩ | ⟨hleast, hmost⟩
  · have hlength := daysIn_of_march year ⟨hleast, hless⟩
    rw [h.eq_of_lt hmonth hless]
    constructor <;> constructor <;> dsimp only <;> omega
  · have hlength : daysIn (year + 1) 1 = 31 := rfl
    rw [eq_january hleast hless]
    constructor <;> constructor <;> dsimp only <;> omega
  · have hlength := daysIn_february (year + 1)
    have hleap := h.leap
    rw [eq_february hleast hmost]
    constructor <;> constructor <;> dsimp only <;> grind

theorem ordinal_eq (h : OfMarch year dayOfYear) :
    (ofMarch year dayOfYear).ordinal = daysBeforeYear (year + 1) + dayOfYear - 305 := by
  rcases h.cases with ⟨month, hleast, hless, hmonth⟩ | ⟨hleast, hless⟩ | ⟨hleast, hmost⟩
  · have hbefore := daysBeforeMonth_of_march year ⟨hleast, hless⟩
    have hfebruary := daysIn_february year
    have hyear := daysBeforeYear_succ year
    rw [h.eq_of_lt hmonth hless, ordinal_mk, hbefore, hfebruary, hyear]
    split <;> omega
  · rw [eq_january hleast hless, ordinal_mk, daysBeforeMonth_january]
    omega
  · rw [eq_february hleast hmost, ordinal_mk, daysBeforeMonth_february]
    omega

end OfMarch

/-- Every date of the calendar lies in a year that begins in March. -/
theorem Valid.exists_ofMarch {d : Date} (h : d.Valid) :
    ∃ year dayOfYear, OfMarch year dayOfYear ∧ d = ofMarch year dayOfYear := by
  obtain ⟨year, month, day⟩ := d
  obtain ⟨⟨hleast, hmost⟩, hfirst, hlast⟩ := h
  dsimp only at hleast hmost hfirst hlast
  rcases Int.lt_or_le month 3 with hearly | hlate
  · have hcases : month = 1 ∨ month = 2 := by omega
    rcases hcases with rfl | rfl
    · have hlength : daysIn year 1 = 31 := rfl
      have hday : OfMarch (year - 1) (day + 305) := ⟨by omega, by omega⟩
      refine ⟨_, _, hday, ?_⟩
      rw [OfMarch.eq_january (by omega) (by omega), Int.sub_add_cancel, Int.add_sub_cancel]
    · have hlength := daysIn_february year
      have hday : OfMarch (year - 1) (day + 336) := ⟨by grind, by grind⟩
      refine ⟨_, _, hday, ?_⟩
      rw [OfMarch.eq_february (by omega) (by grind), Int.sub_add_cancel, Int.add_sub_cancel]
  · obtain ⟨m, rfl⟩ : ∃ m, month = m + 3 := ⟨month - 3, by omega⟩
    have hlength := daysIn_of_march year (by omega : 0 ≤ m ∧ m < 10)
    have hday : OfMarch year ((153 * m + 2) / 5 + day - 1) := ⟨by omega, by omega⟩
    refine ⟨_, _, hday, ?_⟩
    rw [hday.eq_of_lt (by omega : m = _) (by omega)]
    apply congrArg (Date.mk year (m + 3))
    omega

/-- A day of an era: so many centuries, groups of four years, years, and days of a year from March to February. -/
structure OfEra (century group year day : Int) : Prop where
  centuries : 0 ≤ century ∧ century < 4
  groups : 0 ≤ group ∧ group < 25
  years : 0 ≤ year ∧ year < 4
  days : 0 ≤ day ∧ day ≤ 365
  leap : day = 365 → year = 3 ∧ (group < 24 ∨ century = 3)

theorem exists_ofEra {dayOfEra : Int} (hleast : 0 ≤ dayOfEra) (hless : dayOfEra < 146097) :
    ∃ century group year day, OfEra century group year day ∧
      dayOfEra = 36524 * century + 1461 * group + 365 * year + day := by
  obtain ⟨c, hc⟩ : ∃ c, c = min (dayOfEra / 36524) 3 := ⟨_, rfl⟩
  obtain ⟨g, hg⟩ : ∃ g, g = (dayOfEra - 36524 * c) / 1461 := ⟨_, rfl⟩
  obtain ⟨y, hy⟩ : ∃ y, y = min ((dayOfEra - 36524 * c - 1461 * g) / 365) 3 := ⟨_, rfl⟩
  refine ⟨c, g, y, dayOfEra - 36524 * c - 1461 * g - 365 * y, ⟨?_, ?_, ?_, ?_, ?_⟩, ?_⟩ <;> omega

namespace OfEra

variable {c g y d : Int}

/-- Only the last century of an era has a leap day at its end. -/
theorem lt_century (h : OfEra c g y d) : 1461 * g + 365 * y + d < 36524 ∨ (c = 3 ∧ g = 24 ∧ y = 3 ∧ d = 365) := by
  obtain ⟨⟨hc, hc'⟩, ⟨hg, hg'⟩, ⟨hy, hy'⟩, ⟨hd, hd'⟩, hleap⟩ := h
  by_cases hlast : d = 365
  · have hyear := hleap hlast
    omega
  · left
    omega

/-- The year of a day of an era is told from the day alone. -/
theorem yearOfEra {dayOfEra : Int} (h : OfEra c g y d) (hday : dayOfEra = 36524 * c + 1461 * g + 365 * y + d) :
    (dayOfEra - dayOfEra / 1460 + dayOfEra / 36524 - dayOfEra / 146096) / 365 = 100 * c + 4 * g + y := by
  have hcentury := h.lt_century
  obtain ⟨⟨hc, hc'⟩, ⟨hg, hg'⟩, ⟨hy, hy'⟩, ⟨hd, hd'⟩, hleap⟩ := h
  -- the last day of an era would begin a fifth century
  have hcenturies : dayOfEra / 36524 - dayOfEra / 146096 = c := by
    rcases hcentury with hless | ⟨rfl, rfl, rfl, rfl⟩
    · have hera : dayOfEra / 146096 = 0 := by omega
      omega
    · rw [hday]
      rfl
  -- the leap days of the groups before, and that of this group if the day is behind the 1460th with them
  obtain ⟨extra, hextra⟩ : ∃ extra, extra = (24 * c + g + 365 * y + d) / 1460 := ⟨_, rfl⟩
  have hgroups : dayOfEra / 1460 = 25 * c + g + extra := by omega
  omega

theorem daysBeforeYear_eq (h : OfEra c g y d) (era : Int) :
    daysBeforeYear (400 * era + (100 * c + 4 * g + y) + 1) = 146097 * era + (36524 * c + 1461 * g + 365 * y) := by
  obtain ⟨⟨hc, hc'⟩, ⟨hg, hg'⟩, ⟨hy, hy'⟩, -, -⟩ := h
  have hgroups : (400 * era + (100 * c + 4 * g + y)) / 4 = 100 * era + 25 * c + g := by omega
  have hcenturies : (400 * era + (100 * c + 4 * g + y)) / 100 = 4 * era + c := by omega
  have heras : (400 * era + (100 * c + 4 * g + y)) / 400 = era := by omega
  rw [daysBeforeYear, Int.add_sub_cancel, hgroups, hcenturies, heras]
  omega

end OfEra

/-- The days from the start of 1970 to a day of a year that begins in March. -/
def marchDays (year dayOfYear : Int) : Int := daysBeforeYear (year + 1) + dayOfYear - 719468

theorem OfMarch.toDays_eq {year dayOfYear : Int} (h : OfMarch year dayOfYear) :
    (ofMarch year dayOfYear).toDays = marchDays year dayOfYear := by
  have hepoch : ordinal ⟨1970, 1, 1⟩ = 719163 := rfl
  rw [toDays, h.ordinal_eq, hepoch, marchDays]
  omega

theorem exists_marchDays (days : Int) : ∃ year dayOfYear, OfMarch year dayOfYear ∧ days = marchDays year dayOfYear := by
  obtain ⟨era, hera⟩ : ∃ era, era = (days + 719468) / 146097 := ⟨_, rfl⟩
  obtain ⟨c, g, y, d, h, hday⟩ := exists_ofEra (by omega : 0 ≤ days + 719468 - 146097 * era) (by omega)
  refine ⟨400 * era + (100 * c + 4 * g + y), d, ⟨h.days, ?_⟩, ?_⟩
  · intro hlast
    have hyear := h.leap hlast
    have hgroup := h.groups
    apply (isLeap_iff _).mpr
    omega
  · rw [marchDays, h.daysBeforeYear_eq]
    omega

theorem ofDays_marchDays {year dayOfYear : Int} (h : OfMarch year dayOfYear) :
    ofDays (marchDays year dayOfYear) = ofMarch year dayOfYear := by
  obtain ⟨hleast, hmost⟩ := h.range
  obtain ⟨era, hera⟩ : ∃ era, era = year / 400 := ⟨_, rfl⟩
  obtain ⟨c, hc⟩ : ∃ c, c = year % 400 / 100 := ⟨_, rfl⟩
  obtain ⟨g, hg⟩ : ∃ g, g = year % 100 / 4 := ⟨_, rfl⟩
  obtain ⟨y, hy⟩ : ∃ y, y = year % 4 := ⟨_, rfl⟩
  have hyear : year = 400 * era + (100 * c + 4 * g + y) := by omega
  have hparts : OfEra c g y dayOfYear := by
    refine ⟨by omega, by omega, by omega, ⟨hleast, hmost⟩, ?_⟩
    intro hlast
    have hleap := (isLeap_iff _).mp (h.leap hlast)
    omega
  obtain ⟨dayOfEra, hday⟩ : ∃ dayOfEra, dayOfEra = 36524 * c + 1461 * g + 365 * y + dayOfYear := ⟨_, rfl⟩
  have hshifted : marchDays year dayOfYear + 719468 = 146097 * era + dayOfEra := by
    rw [marchDays, hyear, hparts.daysBeforeYear_eq]
    omega
  have hless : 0 ≤ dayOfEra ∧ dayOfEra < 146097 := by
    have hcentury := hparts.lt_century
    omega
  have hquotient : (146097 * era + dayOfEra) / 146097 = era := by omega
  have hremainder : (146097 * era + dayOfEra) % 146097 = dayOfEra := by omega
  have hgroups : (100 * c + 4 * g + y) / 4 = 25 * c + g := by omega
  have hcenturies : (100 * c + 4 * g + y) / 100 = c := by omega
  have hstart : dayOfEra - (365 * (100 * c + 4 * g + y) + (25 * c + g) - c) = dayOfYear := by omega
  rw [ofDays, hshifted, hquotient, hremainder, hparts.yearOfEra hday, hgroups, hcenturies, hstart, ← hyear]

theorem valid_ofDays (days : Int) : (ofDays days).Valid := by
  obtain ⟨year, dayOfYear, h, rfl⟩ := exists_marchDays days
  rw [ofDays_marchDays h]
  exact h.valid

theorem toDays_ofDays (days : Int) : (ofDays days).toDays = days := by
  obtain ⟨year, dayOfYear, h, rfl⟩ := exists_marchDays days
  rw [ofDays_marchDays h, h.toDays_eq]

theorem ofDays_toDays {d : Date} (h : d.Valid) : ofDays d.toDays = d := by
  obtain ⟨year, dayOfYear, hday, rfl⟩ := h.exists_ofMarch
  rw [hday.toDays_eq, ofDays_marchDays hday]

/-- The year 1900 has no leap day. -/
example : ofDays (-25509) = ⟨1900, 2, 28⟩ ∧ ofDays (-25508) = ⟨1900, 3, 1⟩ := by decide

theorem daysBeforeYear_le {year later : Int} (h : year ≤ later) : daysBeforeYear year ≤ daysBeforeYear later := by
  induction later, h using Int.leInduction with
  | base => exact Int.le_refl _
  | succ later _ ih =>
    have hnext := daysBeforeYear_succ later
    split at hnext <;> omega

namespace Valid

variable {d : Date}

theorem ordinal_bounds (h : d.Valid) :
    daysBeforeYear d.year < d.ordinal ∧ d.ordinal ≤ daysBeforeYear (d.year + 1) := by
  obtain ⟨year, dayOfYear, hday, rfl⟩ := h.exists_ofMarch
  have hordinal := hday.ordinal_eq
  have hyear := daysBeforeYear_succ year
  have hnext := daysBeforeYear_succ (year + 1)
  have hrange := hday.range
  rcases hday.cases with ⟨month, hleast, hless, hmonth⟩ | ⟨hleast, hless⟩ | ⟨hleast, hmost⟩
  · have hthis : (ofMarch year dayOfYear).year = year := by rw [hday.eq_of_lt hmonth hless]
    rw [hthis, hordinal]
    grind
  · have hthis : (ofMarch year dayOfYear).year = year + 1 := by rw [OfMarch.eq_january hleast hless]
    rw [hthis, hordinal]
    grind
  · have hthis : (ofMarch year dayOfYear).year = year + 1 := by rw [OfMarch.eq_february hleast hmost]
    rw [hthis, hordinal]
    grind

theorem le_year_iff (h : d.Valid) (year : Int) : year ≤ d.year ↔ daysBeforeYear year < d.ordinal := by
  obtain ⟨hfirst, hlast⟩ := h.ordinal_bounds
  constructor
  · intro hyear
    exact Int.lt_of_le_of_lt (daysBeforeYear_le hyear) hfirst
  · intro hordinal
    apply Int.not_lt.mp
    intro hlater
    exact absurd (Int.le_trans hlast (daysBeforeYear_le hlater)) (Int.not_le.mpr hordinal)

end Valid

end Signatory.Date
