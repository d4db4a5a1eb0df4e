/-! # Calendar

    Dates of the Gregorian calendar, extended to all years, and their day numbers
    counted from 1970-01-01. `dayNumber_ofDayNumber` says that the date of a day has
    that day's number; a triple of year, month and day is a date if its day number
    leads back to it.

    Years are counted from March, so that a leap day ends its year, and in eras of
    400 years, which all have 146097 days.
-/

namespace ExecutionControl

/-- Year, month and day of the month. -/
structure Date where
  /-- The year; year 0 precedes year 1. -/
  year : Int
  /-- The month, 1 to 12 in a date of the calendar. -/
  month : Int
  /-- The day of the month, from 1. -/
  day : Int
  deriving DecidableEq, Repr

namespace Date

/-! ### Days within an era -/

/-- The days of an era before its year `y`, counted from 0. -/
def daysBeforeYear (y : Int) : Int := 365 * y + y / 4 - y / 100

/-- The year of an era that holds its day `d`, counted from 0: the century, then the
    group of four years, then the year. The last century of an era and the last year
    of a group have one day more than the others. -/
def yearOfDay (d : Int) : Int :=
  let century := min 3 (d / 36524)
  let group := (d - century * 36524) / 1461
  let year := min 3 ((d - century * 36524 - group * 1461) / 365)
  century * 100 + group * 4 + year

/-- The days of a year from March before its month `m`, counted from 0. -/
def daysBeforeMonth (m : Int) : Int := (153 * m + 2) / 5

/-- The month of a year from March that holds its day `d`, counted from 0. -/
def monthOfDay (d : Int) : Int := (5 * d + 2) / 153

theorem yearOfDay_bounds {d : Int} (h₀ : 0 ≤ d) (h₁ : d < 146097) :
    0 ≤ yearOfDay d ∧ yearOfDay d < 400 := by
  simp only [yearOfDay]
  omega

theorem day_within_year {d : Int} (h₀ : 0 ≤ d) (h₁ : d < 146097) :
    daysBeforeYear (yearOfDay d) ≤ d ∧ d ≤ daysBeforeYear (yearOfDay d) + 365 := by
  simp only [yearOfDay, daysBeforeYear]
  generalize hc : min 3 (d / 36524) = c
  generalize hg : (d - c * 36524) / 1461 = g
  generalize hy : min 3 ((d - c * 36524 - g * 1461) / 365) = y
  have h₄ : (c * 100 + g * 4 + y) / 4 = c * 25 + g := by omega
  have h₁₀₀ : (c * 100 + g * 4 + y) / 100 = c := by omega
  rw [h₄, h₁₀₀]
  omega

theorem monthOfDay_bounds {d : Int} (h₀ : 0 ≤ d) (h₁ : d ≤ 365) :
    0 ≤ monthOfDay d ∧ monthOfDay d < 12 := by
  unfold monthOfDay
  omega

/-! ### Day numbers -/

/-- The number of days from 1970-01-01 to a date. -/
def dayNumber (d : Date) : Int :=
  let year := if d.month ≤ 2 then d.year - 1 else d.year
  let month := if d.month ≤ 2 then d.month + 9 else d.month - 3
  year / 400 * 146097 + daysBeforeYear (year % 400) + daysBeforeMonth month + d.day - 719469

/-- The date of the day with number `n`. -/
def ofDayNumber (n : Int) : Date :=
  let era := (n + 719468) / 146097
  let dayOfEra := (n + 719468) % 146097
  let year := yearOfDay dayOfEra
  let dayOfYear := dayOfEra - daysBeforeYear year
  let month := monthOfDay dayOfYear
  ⟨if month < 10 then year + era * 400 else year + era * 400 + 1,
    if month < 10 then month + 3 else month - 9,
    dayOfYear - daysBeforeMonth month + 1⟩

/-- The date of a day, from the era, the year in the era and the day in the year. -/
theorem dayNumber_mk {era year day : Int} (hy₀ : 0 ≤ year) (hy₁ : year < 400) (hd₀ : 0 ≤ day)
    (hd₁ : day ≤ 365) :
    dayNumber ⟨if monthOfDay day < 10 then year + era * 400 else year + era * 400 + 1,
      if monthOfDay day < 10 then monthOfDay day + 3 else monthOfDay day - 9,
      day - daysBeforeMonth (monthOfDay day) + 1⟩ =
    era * 146097 + daysBeforeYear year + day - 719468 := by
  obtain ⟨hm₀, hm₁⟩ := monthOfDay_bounds hd₀ hd₁
  generalize monthOfDay day = m at *
  have hq : (year + era * 400) / 400 = era := by omega
  have hr : (year + era * 400) % 400 = year := by omega
  by_cases hlt : m < 10
  · have h₁ : ¬ m + 3 ≤ 2 := by omega
    simp only [dayNumber, hlt, h₁, if_true, if_false, hq, hr, Int.add_sub_cancel]
    omega
  · have h₁ : m - 9 ≤ 2 := by omega
    simp only [dayNumber, hlt, h₁, if_true, if_false, hq, hr, Int.add_sub_cancel,
      Int.sub_add_cancel]
    omega

theorem dayNumber_ofDayNumber (n : Int) : (ofDayNumber n).dayNumber = n := by
  have hd₀ : 0 ≤ (n + 719468) % 146097 := by omega
  have hd₁ : (n + 719468) % 146097 < 146097 := by omega
  obtain ⟨hy₀, hy₁⟩ := yearOfDay_bounds hd₀ hd₁
  obtain ⟨hw₀, hw₁⟩ := day_within_year hd₀ hd₁
  rw [ofDayNumber, dayNumber_mk hy₀ hy₁ (by omega) (by omega)]
  omega

/-! ### Validity -/

/-- A triple is a date of the calendar if its day number leads back to it. -/
def IsValid (d : Date) : Prop := ofDayNumber d.dayNumber = d

instance (d : Date) : Decidable d.IsValid := inferInstanceAs (Decidable (_ = _))

theorem isValid_ofDayNumber (n : Int) : (ofDayNumber n).IsValid := by
  rw [IsValid, dayNumber_ofDayNumber]

end Date

end ExecutionControl
