/-!
# The proleptic Gregorian calendar

Days are numbered from the first of January of year 1, which is day zero; years before it are zero
and negative. `yearOfDay` inverts `daysBeforeYear`: it starts from the mean length of a year, which
is never more than one year off.
-/

namespace Waveform.Calendar

/-- Whether a year has a leap day. -/
def isLeapYear (year : Int) : Bool := year % 4 = 0 ∧ (year % 100 ≠ 0 ∨ year % 400 = 0)

/-- The number of days of a year. -/
def yearLength (year : Int) : Nat := if isLeapYear year then 366 else 365

/-- The number of the first day of a year. -/
def daysBeforeYear (year : Int) : Int :=
  365 * (year - 1) + (year - 1) / 4 - (year - 1) / 100 + (year - 1) / 400

/-- The number of the first day of 1970, from which times are counted. -/
def epochDay : Int := 719162

/-- The lengths of the months of a year. -/
def monthLengths (year : Int) : List Nat :=
  [31, if isLeapYear year then 29 else 28, 31, 30, 31, 30, 31, 31, 30, 31, 30, 31]

/-- The year that a day lies in. -/
def yearOfDay (day : Int) : Int :=
  let estimate := day * 400 / 146097 + 1
  if day < daysBeforeYear (estimate + 1) then estimate else estimate + 1

/-- The month and the day of the month of a day of the year, counted from zero; months are
numbered from the given one on. -/
def monthAndDay (month : Nat) : List Nat → Nat → Nat × Nat
  | [], dayOfYear => (month, dayOfYear + 1)
  | length :: later, dayOfYear =>
      if dayOfYear < length then (month, dayOfYear + 1)
      else monthAndDay (month + 1) later (dayOfYear - length)

/-- A date as year, month and day of the month. -/
structure Date where
  year : Int
  month : Nat
  day : Nat
deriving DecidableEq

/-- The date of a day. -/
def dateOfDay (day : Int) : Date :=
  let year := yearOfDay day
  let (month, dayOfMonth) := monthAndDay 1 (monthLengths year) (day - daysBeforeYear year).toNat
  ⟨year, month, dayOfMonth⟩

/-- A year starts as many days after the one before it as that one has. -/
theorem daysBeforeYear_succ (year : Int) :
    daysBeforeYear (year + 1) = daysBeforeYear year + yearLength year := by
  simp only [daysBeforeYear, yearLength, isLeapYear, Bool.decide_and, Bool.decide_or,
    Bool.and_eq_true, Bool.or_eq_true, decide_eq_true_eq]
  split <;> omega

/-- A day lies in its year. -/
theorem yearOfDay_bounds (day : Int) :
    daysBeforeYear (yearOfDay day) ≤ day ∧ day < daysBeforeYear (yearOfDay day + 1) := by
  simp only [yearOfDay]
  split
  · rename_i before
    exact ⟨by simp only [daysBeforeYear]; omega, before⟩
  · rename_i notBefore
    exact ⟨by omega, by simp only [daysBeforeYear]; omega⟩

end Waveform.Calendar
