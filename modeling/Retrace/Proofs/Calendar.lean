import Retrace.Instant

/-!
# The calendar

The date of a day is in the calendar, and its day is the day again.  Years are taken to start in
March, so that a leap day ends its year; within four hundred years the year of a day is found by
taking the leap days before it away.

Main results:

- Theorem `days_ofDays`: the day of the date of a day is the day.
- Theorem `isValid_ofDays`: the date of a day is in the calendar.
-/

namespace Retrace
namespace Instant

/-! ## Years -/

/-- The year of a day of a century that is preceded by so many centuries. -/
theorem yearOfCentury_bounds {day centuries : Int} (hday : 0 ≤ day) (hlt : day < 36524)
    (hcenturies : 0 ≤ centuries) (hthree : centuries ≤ 3) {year : Int}
    (hyear : year = (day - (24 * centuries + day) / 1460) / 365) :
    0 ≤ year ∧ year ≤ 99 ∧ 365 * year + year / 4 ≤ day ∧
      day < 365 * (year + 1) + (year + 1) / 4 := by
  obtain ⟨q, hq⟩ : ∃ q, (24 * centuries + day) / 1460 = q := ⟨_, rfl⟩
  rw [hq] at hyear
  have hquotient : 1460 * q ≤ 24 * centuries + day ∧ 24 * centuries + day < 1460 * q + 1460 := by
    omega
  have hbounds : 365 * year ≤ day - q ∧ day - q < 365 * year + 365 := by omega
  clear hq hyear
  omega

/-- The year of a day of four hundred years. -/
theorem yearOfEra_bounds {day : Int} (hday : 0 ≤ day) (hlt : day < 146097) {year : Int}
    (hyear : year = (day - day / 1460 + day / 36524 - day / 146096) / 365) :
    0 ≤ year ∧ year ≤ 399 ∧ 365 * year + year / 4 - year / 100 ≤ day ∧
      day < 365 * (year + 1) + (year + 1) / 4 - (year + 1) / 100 + (year + 1) / 400 := by
  by_cases hlast : day = 146096
  · subst hlast
    subst hyear
    decide
  · obtain ⟨b, hb⟩ : ∃ b, day / 36524 = b := ⟨_, rfl⟩
    obtain ⟨rest, hrest⟩ : ∃ rest, day = 36524 * b + rest := ⟨day - 36524 * b, by omega⟩
    have hcentury := @yearOfCentury_bounds rest b (by omega) (by omega) (by omega) (by omega) _ rfl
    obtain ⟨y, hy⟩ : ∃ y, (rest - (24 * b + rest) / 1460) / 365 = y := ⟨_, rfl⟩
    have hsum : year = 100 * b + y := by omega
    rw [hy] at hcentury
    have hthree : 0 ≤ b ∧ b ≤ 3 := by omega
    have hcut : rest < 36524 := by omega
    clear hyear hy hb hday hlt hlast
    obtain ⟨hlow, hhigh, hstart, hend⟩ := hcentury
    have hquarter : year / 4 = 25 * b + y / 4 := by omega
    have hnext : (year + 1) / 4 = 25 * b + (y + 1) / 4 := by omega
    have hhundred : year / 100 = b := by omega
    rw [hrest, hquarter, hnext, hhundred]
    refine ⟨by omega, by omega, by omega, ?_⟩
    by_cases hcentury : y = 99
    · have hover : (year + 1) / 100 = b + 1 := by omega
      rw [hover]
      omega
    · have hwithin : (year + 1) / 100 = b := by omega
      rw [hwithin]
      omega

/-! ## Days -/

/-- The number of days from the first of March to the first of a month, counted from March. -/
def daysBefore (month : Int) : Int :=
  (153 * month + 2) / 5

/-- A day as four hundred years, a year of these from March on, a month from March on and a day of
the month. -/
structure Position where
  era : Int
  year : Int
  month : Int
  day : Int

/-- The days of the year before a day. -/
def Position.dayOfYear (p : Position) : Int :=
  daysBefore p.month + p.day - 1

/-- Whether a position is one of the calendar: its year ends with the last of February, which is a
leap day or not. -/
structure Position.Valid (p : Position) : Prop where
  year : 0 ≤ p.year ∧ p.year ≤ 399
  month : 0 ≤ p.month ∧ p.month ≤ 11
  day : 1 ≤ p.day
  dayOfYear : p.dayOfYear <
    365 + (p.year + 1) / 4 - p.year / 4 - (p.year + 1) / 100 + p.year / 100 + (p.year + 1) / 400
  monthOfDay : (5 * p.dayOfYear + 2) / 153 = p.month

/-- The number of the day at a position. -/
def Position.days (p : Position) : Int :=
  p.era * 146097 + (365 * p.year + p.year / 4 - p.year / 100 + p.dayOfYear) - 719468

/-- The date at a position. -/
def Position.date (p : Position) : Date where
  year := if p.month < 10 then p.year + p.era * 400 else p.year + p.era * 400 + 1
  month := (if p.month < 10 then p.month + 3 else p.month - 9).toNat
  day := p.day.toNat

/-- Every day has a position, whose date is that of the day. -/
theorem exists_position (days : Int) :
    ∃ p : Position, p.Valid ∧ p.days = days ∧ p.date = Date.ofDays days := by
  obtain ⟨era, hera⟩ : ∃ era, (days + 719468) / 146097 = era := ⟨_, rfl⟩
  obtain ⟨rest, hrest⟩ : ∃ rest, days + 719468 - era * 146097 = rest := ⟨_, rfl⟩
  obtain ⟨year, hyear⟩ : ∃ year, (rest - rest / 1460 + rest / 36524 - rest / 146096) / 365 = year :=
    ⟨_, rfl⟩
  obtain ⟨hlow, hhigh, hstart, hend⟩ :=
    @yearOfEra_bounds rest (by omega) (by omega) year hyear.symm
  obtain ⟨dayOfYear, hday⟩ : ∃ d, rest - (365 * year + year / 4 - year / 100) = d := ⟨_, rfl⟩
  obtain ⟨month, hmonth⟩ : ∃ month, (5 * dayOfYear + 2) / 153 = month := ⟨_, rfl⟩
  have hposition : (Position.mk era year month (dayOfYear - daysBefore month + 1)).dayOfYear =
      dayOfYear := by
    simp only [Position.dayOfYear]
    omega
  refine ⟨⟨era, year, month, dayOfYear - daysBefore month + 1⟩, ?_, ?_, ?_⟩
  · refine ⟨⟨hlow, hhigh⟩, ?_, ?_, ?_, ?_⟩
    · simp only
      omega
    · simp only [daysBefore]
      omega
    · rw [hposition]
      simp only
      omega
    · rw [hposition]
      exact hmonth
  · rw [Position.days, hposition]
    simp only
    omega
  · have hmonths : 0 ≤ month ∧ month ≤ 11 := by omega
    simp only [Date.ofDays, hera, hrest, hyear, hday, hmonth, Position.date, daysBefore]
    by_cases hspring : month < 10
    · rw [if_pos hspring, if_pos hspring, if_neg (by omega)]
    · rw [if_neg hspring, if_neg hspring, if_pos (by omega)]

/-- The day of a date at a position is that of the position. -/
theorem days_date {p : Position} (h : p.Valid) : p.date.days = p.days := by
  obtain ⟨⟨hlow, hhigh⟩, ⟨hfirst, hlast⟩, hday, -, -⟩ := h
  have hera : ∀ y : Int, 0 ≤ y → y ≤ 399 → (y + p.era * 400) / 400 = p.era := by omega
  have hnat : (p.day.toNat : Int) = p.day := Int.toNat_of_nonneg (by omega)
  rw [Date.days, Position.date, Position.days, Position.dayOfYear, daysBefore]
  by_cases hspring : p.month < 10
  · have hmonth : ((p.month + 3).toNat : Int) = p.month + 3 := Int.toNat_of_nonneg (by omega)
    have hlate : ¬(p.month + 3).toNat ≤ 2 := by omega
    have hyear : p.year + p.era * 400 - p.era * 400 = p.year := by omega
    simp only [if_pos hspring, if_neg hlate, hera p.year hlow hhigh, hmonth, hnat, hyear,
      Int.add_sub_cancel]
    omega
  · have hmonth : ((p.month - 9).toNat : Int) = p.month - 9 := Int.toNat_of_nonneg (by omega)
    have hearly : (p.month - 9).toNat ≤ 2 := by omega
    have hyear : p.year + p.era * 400 - p.era * 400 = p.year := by omega
    simp only [if_neg hspring, if_pos hearly, Int.add_sub_cancel, hera p.year hlow hhigh, hmonth,
      hnat, hyear, Int.sub_add_cancel]
    omega

/-- A year from March on has a leap day exactly if it ends in a leap year. -/
theorem leapDay_eq {year : Int} (hlow : 0 ≤ year) (hhigh : year ≤ 399) (era : Int) :
    (year + 1) / 4 - year / 4 - (year + 1) / 100 + year / 100 + (year + 1) / 400 =
      if isLeap (year + era * 400 + 1) then 1 else 0 := by
  by_cases hleap : isLeap (year + era * 400 + 1) = true
  · rw [if_pos hleap]
    simp only [isLeap, Bool.or_eq_true, Bool.and_eq_true, beq_iff_eq, bne_iff_ne, ne_eq] at hleap
    omega
  · rw [if_neg hleap]
    simp only [isLeap, Bool.or_eq_true, Bool.and_eq_true, beq_iff_eq, bne_iff_ne, ne_eq] at hleap
    omega

/-- The date at a position is in the calendar. -/
theorem isValid_date {p : Position} (h : p.Valid) : p.date.isValid = true := by
  obtain ⟨⟨hlow, hhigh⟩, ⟨hfirst, hlast⟩, hday, hdayOfYear, hmonthOfDay⟩ := h
  have hleap := leapDay_eq hlow hhigh p.era
  rw [Position.dayOfYear, daysBefore] at hdayOfYear hmonthOfDay
  rw [Date.isValid, Position.date]
  by_cases hfebruary : p.month = 11
  · simp only [hfebruary] at hdayOfYear ⊢
    simp only [daysOfMonth, Bool.and_eq_true, decide_eq_true_eq]
    by_cases hyear : isLeap (p.year + p.era * 400 + 1) = true
    · simp [hyear] at hleap ⊢
      omega
    · simp [hyear] at hleap ⊢
      omega
  · -- the lengths of the other months follow from where they start
    have hmonths : p.month = 0 ∨ p.month = 1 ∨ p.month = 2 ∨ p.month = 3 ∨ p.month = 4 ∨
        p.month = 5 ∨ p.month = 6 ∨ p.month = 7 ∨ p.month = 8 ∨ p.month = 9 ∨ p.month = 10 := by
      omega
    clear hleap hdayOfYear
    rcases hmonths with h | h | h | h | h | h | h | h | h | h | h <;>
      simp only [h] at hmonthOfDay ⊢ <;> simp [daysOfMonth] <;> omega

/-- The day of the date of a day is the day. -/
theorem days_ofDays (days : Int) : (Date.ofDays days).days = days := by
  obtain ⟨p, hvalid, hdays, hdate⟩ := exists_position days
  rw [← hdate, days_date hvalid, hdays]

/-- The date of a day is in the calendar. -/
theorem isValid_ofDays (days : Int) : (Date.ofDays days).isValid = true := by
  obtain ⟨p, hvalid, -, hdate⟩ := exists_position days
  rw [← hdate, isValid_date hvalid]

end Instant
end Retrace
