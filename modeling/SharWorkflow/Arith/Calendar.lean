import Mathlib.Order.Basic
import Mathlib.Tactic.Common

/-!
# The calendar

Days are counted from the epoch, 1 January 1970, and months from March of the year 0, in the
Gregorian calendar extended to all years. A year that begins in March has its leap day at the end,
so the months of every year begin on the same days of it.

* `Date`, `dateOf`: a day as a month and a day of it.
* `addDate`: a time in nanoseconds is moved by years, months and days. A day that the month does not
  have runs over into the next one.
-/

namespace Calendar

/-- The first day of a year that begins in March. -/
def yearStart (year : Int) : Int := 365 * year + year / 4 - year / 100 + year / 400 - 719468

/-- The first day of a month. -/
def monthStart (month : Int) : Int := yearStart (month / 12) + (153 * (month % 12) + 2) / 5

/-- The year of a day. The eras of 400 years, the centuries, the cycles of four years and the years
that are over are split off one after the other; the last day of an era, and that of a cycle, still
belong to the year before them. -/
def yearOf (day : Int) : Int :=
  let era := (day + 719468) / 146097
  let rest := (day + 719468) % 146097
  let century := rest / 36524 - rest / 36524 / 4
  let rest := rest - 36524 * century
  let cycle := rest / 1461
  let rest := rest - 1461 * cycle
  400 * era + 100 * century + 4 * cycle + (rest / 365 - rest / 365 / 4)

/-- The month of a day. -/
def monthOf (day : Int) : Int :=
  12 * yearOf day + (5 * (day - yearStart (yearOf day)) + 2) / 153

theorem yearStart_yearOf (day : Int) :
    yearStart (yearOf day) ≤ day ∧ day ≤ yearStart (yearOf day) + 365 := by
  unfold yearOf
  dsimp only
  generalize hera : (day + 719468) / 146097 = era
  generalize hrest : (day + 719468) % 146097 = rest
  have hday : day = 146097 * era + rest - 719468 := by omega
  generalize hcentury : rest / 36524 - rest / 36524 / 4 = century
  generalize hleft : rest - 36524 * century = left
  have hleft' : 0 ≤ century ∧ century ≤ 3 ∧ 0 ≤ left ∧ left ≤ 36524 := by omega
  generalize hcycle : left / 1461 = cycle
  generalize hlast : left - 1461 * cycle = last
  have hlast' : 0 ≤ cycle ∧ cycle ≤ 24 ∧ 0 ≤ last ∧ last ≤ 1460 := by omega
  generalize hyear : last / 365 - last / 365 / 4 = year
  have hyear' : 0 ≤ year ∧ year ≤ 3 ∧ 0 ≤ last - 365 * year ∧ last - 365 * year ≤ 365 := by omega
  have hfour : (400 * era + 100 * century + 4 * cycle + year) / 4 =
      100 * era + 25 * century + cycle := by omega
  have hhundred : (400 * era + 100 * century + 4 * cycle + year) / 100 = 4 * era + century := by
    omega
  have hera' : (400 * era + 100 * century + 4 * cycle + year) / 400 = era := by omega
  rw [yearStart, hfour, hhundred, hera']
  omega

/-- A day is one of the 31 days from the beginning of its month. -/
theorem monthStart_monthOf (day : Int) :
    monthStart (monthOf day) ≤ day ∧ day < monthStart (monthOf day) + 31 := by
  have hyear := yearStart_yearOf day
  unfold monthOf
  generalize yearOf day = year at *
  generalize hdays : day - yearStart year = days
  have hmonth : 0 ≤ (5 * days + 2) / 153 ∧ (5 * days + 2) / 153 ≤ 11 := by omega
  have hdiv : (12 * year + (5 * days + 2) / 153) / 12 = year := by omega
  have hmod : (12 * year + (5 * days + 2) / 153) % 12 = (5 * days + 2) / 153 := by omega
  rw [monthStart, hdiv, hmod]
  omega

/-- A month and a day of it, counted from zero. -/
structure Date where
  month : Int
  day : Fin 31

/-- The date of a day. -/
def dateOf (day : Int) : Date where
  month := monthOf day
  day := ⟨(day - monthStart (monthOf day)).toNat, by have := monthStart_monthOf day; omega⟩

/-- The nanoseconds of a day. -/
def dayNanos : Int := 86400000000000

/-- A time is moved by years, months and days. -/
def addDate (t years months days : Int) : Int :=
  let date := dateOf (t / dayNanos)
  (monthStart (date.month + 12 * years + months) + date.day + days) * dayNanos + t % dayNanos

theorem monthStart_add_day (day : Int) :
    monthStart (dateOf day).month + (dateOf day).day = day := by
  have h := monthStart_monthOf day
  dsimp only [dateOf]
  omega

/-- A time that is moved by days only is moved by so many times 24 hours. -/
theorem addDate_days (t days : Int) : addDate t 0 0 days = t + days * dayNanos := by
  have hday := monthStart_add_day (t / dayNanos)
  have hsplit := Int.mul_ediv_add_emod t dayNanos
  rw [Int.mul_comm] at hsplit
  rw [addDate, Int.mul_zero, Int.add_zero, Int.add_zero, hday, Int.add_mul]
  omega

/-- Leap years: one month after 31 January 2024 it is 2 March. -/
example : addDate (19753 * dayNanos) 0 1 0 = 19784 * dayNanos := by decide

end Calendar
