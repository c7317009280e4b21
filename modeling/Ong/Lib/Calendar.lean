import Mathlib.Data.List.Basic
import Mathlib.Order.Monotone.Basic

/-!
# The Gregorian calendar

Days are counted from the first of January 1970, and years from March on, so that a leap day is the
last one of its year.  An era of 400 years has always as many days.

## Main results

* `daysFromCivil_civilFromDays`: the date of a day is on that day
* `month_range`, `day_range`: dates have months and days of the calendar
* `year_lt_iff`: years follow one another
-/

namespace Ong.Calendar

/-- A date. -/
structure Civil where
  year : Int
  month : Int
  day : Int
  deriving DecidableEq

/-- The days before a month, from March on. -/
def daysBeforeMonth (month : Int) : Int := (153 * month + 2) / 5

/-- The days of an era before a year of it. -/
def daysBeforeYear (year : Int) : Int := year * 365 + year / 4 - year / 100

/-- The first of March 0000, from which the eras are counted. -/
def epoch : Int := 719468

/-- The day of a date; months and days beyond those of the calendar go on counting. -/
def daysFromCivil (c : Civil) : Int :=
  let year := if c.month ≤ 2 then c.year - 1 else c.year
  year / 400 * 146097 +
    (daysBeforeYear (year % 400) + (daysBeforeMonth ((c.month + 9) % 12) + c.day - 1)) - epoch

/-- The parts of a day of an era: centuries, groups of four years, years and days. -/
structure Parts where
  century : Int
  quad : Int
  year : Int
  day : Int

/-- The parts of a day of an era; its last century and the last year of four have one day more. -/
def parts (day : Int) : Parts :=
  let century := min (day / 36524) 3
  let dayOfCentury := day - century * 36524
  let dayOfQuad := dayOfCentury % 1461
  let year := min (dayOfQuad / 365) 3
  ⟨century, dayOfCentury / 1461, year, dayOfQuad - year * 365⟩

/-- The date of a day. -/
def civilFromDays (days : Int) : Civil :=
  let p := parts ((days + epoch) % 146097)
  let monthFromMarch := (5 * p.day + 2) / 153
  let month := if monthFromMarch < 10 then monthFromMarch + 3 else monthFromMarch - 9
  let year := (days + epoch) / 146097 * 400 + p.century * 100 + p.quad * 4 + p.year
  ⟨if month ≤ 2 then year + 1 else year, month, p.day - daysBeforeMonth monthFromMarch + 1⟩

section Parts

variable {day : Int}

/-- The parts are those of a day of an era. -/
structure Parts.Range (p : Parts) : Prop where
  century : 0 ≤ p.century ∧ p.century ≤ 3
  quad : 0 ≤ p.quad ∧ p.quad ≤ 24
  year : 0 ≤ p.year ∧ p.year ≤ 3
  day : 0 ≤ p.day ∧ p.day ≤ 365

theorem parts_range (h : 0 ≤ day) (hlt : day < 146097) : (parts day).Range := by
  constructor <;> simp only [parts] <;> omega

theorem parts_sum (day : Int) :
    (parts day).century * 36524 + (parts day).quad * 1461 + (parts day).year * 365 +
      (parts day).day = day := by
  simp only [parts]
  omega

theorem daysBeforeYear_parts {p : Parts} (h : p.Range) :
    daysBeforeYear (p.century * 100 + p.quad * 4 + p.year) =
      p.century * 36524 + p.quad * 1461 + p.year * 365 := by
  obtain ⟨hcentury, hquad, hyear, -⟩ := h
  have hfour : (p.century * 100 + p.quad * 4 + p.year) / 4 = p.century * 25 + p.quad := by omega
  have hhundred : (p.century * 100 + p.quad * 4 + p.year) / 100 = p.century := by omega
  rw [daysBeforeYear, hfour, hhundred]
  omega

end Parts

section Civil

variable (days : Int)

theorem era_range : 0 ≤ (days + epoch) % 146097 ∧ (days + epoch) % 146097 < 146097 := by
  omega

theorem month_range : 1 ≤ (civilFromDays days).month ∧ (civilFromDays days).month ≤ 12 := by
  have hday := (parts_range (era_range days).1 (era_range days).2).day
  simp only [civilFromDays]
  split <;> omega

theorem day_range : 1 ≤ (civilFromDays days).day ∧ (civilFromDays days).day ≤ 31 := by
  simp only [civilFromDays, daysBeforeMonth]
  omega

/-- **The date of a day is on that day.** -/
theorem daysFromCivil_civilFromDays : daysFromCivil (civilFromDays days) = days := by
  have hrange := parts_range (era_range days).1 (era_range days).2
  have hsum := parts_sum ((days + epoch) % 146097)
  have hyears := daysBeforeYear_parts hrange
  obtain ⟨hcentury, hquad, hyear, hday⟩ := hrange
  simp only [civilFromDays]
  generalize parts ((days + epoch) % 146097) = p at *
  generalize hmonth : (5 * p.day + 2) / 153 = m
  generalize hy : (days + epoch) / 146097 * 400 + p.century * 100 + p.quad * 4 + p.year = y
  have hmarch : ((if m < 10 then m + 3 else m - 9) + 9) % 12 = m := by split <;> omega
  have hback : ∀ month : Int, (if month ≤ 2 then (if month ≤ 2 then y + 1 else y) - 1
      else if month ≤ 2 then y + 1 else y) = y := by
    intro month
    split <;> omega
  have hera : y / 400 = (days + epoch) / 146097 := by omega
  have hyearOfEra : y % 400 = p.century * 100 + p.quad * 4 + p.year := by omega
  simp only [daysFromCivil]
  rw [hmarch, hback, hera, hyearOfEra, hyears]
  omega

/-- The day of the first of January. -/
def firstOfYear (year : Int) : Int := daysFromCivil ⟨year, 1, 1⟩

theorem firstOfYear_lt_succ (year : Int) : firstOfYear year < firstOfYear (year + 1) := by
  simp only [firstOfYear, daysFromCivil, daysBeforeYear, daysBeforeMonth]
  omega

theorem daysFromCivil_range {c : Civil} (hmonth : 1 ≤ c.month ∧ c.month ≤ 12)
    (hday : 1 ≤ c.day ∧ c.day ≤ 31) :
    firstOfYear c.year ≤ daysFromCivil c ∧ daysFromCivil c < firstOfYear (c.year + 1) := by
  simp only [firstOfYear, daysFromCivil, daysBeforeYear, daysBeforeMonth]
  split_ifs <;> omega

/-- **The years of the days before the first of January.** -/
theorem year_lt_iff (year : Int) : (civilFromDays days).year < year ↔ days < firstOfYear year := by
  have hmono : StrictMono firstOfYear := strictMono_int_of_lt_succ firstOfYear_lt_succ
  have hrange := daysFromCivil_range (month_range days) (day_range days)
  rw [daysFromCivil_civilFromDays] at hrange
  constructor
  · intro h
    exact lt_of_lt_of_le hrange.2 (hmono.monotone h)
  · intro h
    exact hmono.lt_iff_lt.mp (lt_of_le_of_lt hrange.1 h)

end Civil

example : civilFromDays 15333 = ⟨2011, 12, 25⟩ := by decide

end Ong.Calendar
