import Proctor.Time.Calendar
import Mathlib.Tactic.IntervalCases
import Mathlib.Tactic.Ring

/-!
# Dates and days

The date that is some days after the start of 1970 exists, and is that many days after it (`toDays_ofDays`, `valid_ofDays`). Years begin
in March here, so that each is a number of centuries, of four years and of years into its cycle, and only its last day may be missing.
-/

set_option autoImplicit false

namespace Proctor.Calendar

/-- A day of the cycle of 400 years, by its century, the four years of it, the year of these and the day of this year. -/
structure Dated (day century four year rest : Int) : Prop where
  day_eq : day = 36524 * century + 1461 * four + 365 * year + rest
  centuries : 0 ≤ century ∧ century ≤ 3
  fours : 0 ≤ four ∧ four ≤ 24
  years : 0 ≤ year ∧ year ≤ 3
  days : 0 ≤ rest ∧ rest ≤ 365
  /-- The leap day is the last one of four years, but not of a century, unless that is the last one. -/
  leap : rest = 365 → year = 3 ∧ (four = 24 → century = 3)

theorem exists_dated (day : Int) (first : 0 ≤ day) (last : day < 146097) :
    ∃ century four year rest, Dated day century four year rest := by
  obtain ⟨century, ofCentury⟩ : ∃ century, century = min (day / 36524) 3 := ⟨_, rfl⟩
  obtain ⟨four, ofFour⟩ : ∃ four, four = (day - 36524 * century) / 1461 := ⟨_, rfl⟩
  obtain ⟨year, ofYear⟩ : ∃ year, year = min ((day - 36524 * century - 1461 * four) / 365) 3 := ⟨_, rfl⟩
  exact ⟨century, four, year, day - 36524 * century - 1461 * four - 365 * year, by omega, by omega, by omega, by omega, by omega, by omega⟩

/-- The date of a day of a year that begins in March. -/
def marchDate (year day : Int) : Date :=
  let month := (5 * day + 2) / 153
  let day := day - (153 * month + 2) / 5 + 1
  if month < 10 then ⟨year, (month + 3).toNat, day.toNat⟩ else ⟨year + 1, (month - 9).toNat, day.toNat⟩

variable {day century four year rest : Int}

/-- The year is found by counting the leap days off. -/
theorem Dated.year_eq (dated : Dated day century four year rest) :
    (day - day / 1460 + day / 36524 - day / 146096) / 365 = 100 * century + 4 * four + year := by
  obtain ⟨day_eq, _, _, _, _, leap⟩ := dated
  have within : 1461 * four + 365 * year + rest ≤ 36524 := by omega
  have centuries : day / 36524 - day / 146096 = century := by
    by_cases last : day = 146096
    · subst last
      omega
    · have small : day / 146096 = 0 := by omega
      have short : 1461 * four + 365 * year + rest < 36524 := by omega
      omega
  have fours : day / 1460 = 25 * century + four ∨ day / 1460 = 25 * century + four + 1 := by omega
  omega

/-- The days of the cycle before a year. -/
theorem Dated.before_year (dated : Dated day century four year rest) :
    365 * (100 * century + 4 * four + year) + (100 * century + 4 * four + year) / 4 - (100 * century + 4 * four + year) / 100 =
      day - rest := by
  obtain ⟨day_eq, _, fours, years, _, _⟩ := dated
  have quarters : (100 * century + 4 * four + year) / 4 = 25 * century + four := by omega
  have centuries : (100 * century + 4 * four + year) / 100 = century := by omega
  rw [quarters, centuries, day_eq]
  ring

/-- A date, by the day of its year. -/
theorem exists_ofDays_eq (days : Int) : ∃ cycle century four year rest, Dated (days + 719468 - 146097 * cycle) century four year rest ∧
    Date.ofDays days = marchDate (100 * century + 4 * four + year + cycle * 400) rest := by
  obtain ⟨cycle, ofCycle⟩ : ∃ cycle, cycle = (days + 719468) / 146097 := ⟨_, rfl⟩
  obtain ⟨day, ofDay⟩ : ∃ day, day = (days + 719468) % 146097 := ⟨_, rfl⟩
  obtain ⟨century, four, year, rest, dated⟩ := exists_dated day (by omega) (by omega)
  have same : days + 719468 - 146097 * cycle = day := by
    clear dated
    omega
  refine ⟨cycle, century, four, year, rest, same ▸ dated, ?_⟩
  unfold Date.ofDays
  simp only [← ofCycle, ← ofDay, dated.year_eq, dated.before_year, sub_sub_cancel]
  rfl

theorem toDays_marchDate (year : Int) {day : Int} (first : 0 ≤ day) (last : day ≤ 365) : (marchDate year day).toDays =
    year / 400 * 146097 + (year % 400 * 365 + year % 400 / 4 - year % 400 / 100 + day) - 719468 := by
  obtain ⟨month, ofMonth⟩ : ∃ month, month = (5 * day + 2) / 153 := ⟨_, rfl⟩
  have inMonth : (((day - (153 * month + 2) / 5 + 1).toNat : Nat) : Int) = day - (153 * month + 2) / 5 + 1 := by omega
  unfold marchDate
  simp only [← ofMonth]
  split
  · have late : ¬(month + 3).toNat ≤ 2 := by omega
    have month : (((month + 3).toNat : Nat) : Int) - 3 = month := by omega
    simp only [Date.toDays, if_neg late, month, inMonth]
    ring
  · have early : (month - 9).toNat ≤ 2 := by omega
    have month : (((month - 9).toNat : Nat) : Int) + 9 = month := by omega
    simp only [Date.toDays, if_pos early, month, inMonth, Int.add_sub_cancel]
    ring

/-- A date is as many days after the start of 1970 as it was made from. -/
theorem toDays_ofDays (days : Int) : (Date.ofDays days).toDays = days := by
  obtain ⟨cycle, century, four, year, rest, ⟨day_eq, _, _, _, range, _⟩, eq⟩ := exists_ofDays_eq days
  rw [eq, toDays_marchDate _ range.1 range.2]
  have years : (100 * century + 4 * four + year + cycle * 400) / 400 = cycle ∧
      (100 * century + 4 * four + year + cycle * 400) % 400 = 100 * century + 4 * four + year := by omega
  rw [years.1, years.2]
  omega

/-- The days of the months from March on, up to January. -/
theorem daysInMonth_of_march {month : Int} (first : 0 ≤ month) (last : month ≤ 10) (year : Int) :
    (daysInMonth year (if month < 10 then month + 3 else month - 9).toNat : Int) =
      (153 * (month + 1) + 2) / 5 - (153 * month + 2) / 5 := by
  interval_cases month <;> rfl

theorem daysInMonth_february (year : Int) : daysInMonth year 2 = if isLeap year then 29 else 28 := rfl

/-- The day of a March year exists, unless it is the leap day of a year without one. -/
theorem valid_marchDate {year day : Int} (first : 0 ≤ day) (last : day ≤ 365) (leap : day = 365 → isLeap (year + 1) = true) :
    (marchDate year day).valid = true := by
  obtain ⟨month, ofMonth⟩ : ∃ month, month = (5 * day + 2) / 153 := ⟨_, rfl⟩
  have inMonth : (153 * month + 2) / 5 ≤ day ∧ day < (153 * (month + 1) + 2) / 5 := by omega
  have months : 0 ≤ month ∧ month ≤ 11 := by omega
  unfold marchDate
  simp only [← ofMonth]
  obtain february | before : month = 11 ∨ month ≤ 10 := by omega
  · subst february
    have fits : (day - 337 + 1).toNat ≤ daysInMonth (year + 1) 2 := by
      rw [daysInMonth_february]
      split
      · omega
      · rename_i common
        have short : day ≠ 365 := fun long => common (leap long)
        omega
    rw [if_neg (by decide)]
    simp only [Date.valid, Bool.and_eq_true, decide_eq_true_eq]
    exact ⟨⟨⟨by decide, by decide⟩, by omega⟩, fits⟩
  · have length := daysInMonth_of_march months.1 before
    split <;> rename_i early <;> simp only [early, if_true, if_false] at length <;>
      simp only [Date.valid, Bool.and_eq_true, decide_eq_true_eq]
    · have fits := length year
      refine ⟨⟨⟨by omega, by omega⟩, by omega⟩, ?_⟩
      omega
    · have fits := length (year + 1)
      refine ⟨⟨⟨by omega, by omega⟩, by omega⟩, ?_⟩
      omega

theorem valid_ofDays (days : Int) : (Date.ofDays days).valid = true := by
  obtain ⟨cycle, century, four, year, rest, ⟨_, centuries, fours, years, range, leap⟩, eq⟩ := exists_ofDays_eq days
  rw [eq]
  refine valid_marchDate range.1 range.2 fun last => ?_
  obtain ⟨ends, century⟩ := leap last
  simp only [isLeap, Bool.and_eq_true, Bool.or_eq_true, beq_iff_eq, bne_iff_ne]
  clear eq
  omega

end Proctor.Calendar
