import Mathlib.Order.Monotone.Basic
import Waveform.Time.Calendar
import Waveform.Total

/-!
# Days of the year and their dates

A day of a year falls on the date up to which the lengths of the months and the day of the month add
up to it. Every day of a year falls on exactly one date, and this is the date that is found for its
number in the count of all days.
-/

namespace Waveform.Calendar

/-! ## Years -/

/-- Later years start later. -/
theorem daysBeforeYear_lt_iff {first second : Int} :
    daysBeforeYear first < daysBeforeYear second ↔ first < second := by
  have isLater (year : Int) : daysBeforeYear year < daysBeforeYear (year + 1) := by
    rw [daysBeforeYear_succ, yearLength]
    split <;> omega
  exact (strictMono_int_of_lt_succ isLater).lt_iff_lt

/-- A day lies in the year whose bounds enclose it. -/
theorem yearOfDay_eq {day year : Int} (isIn : daysBeforeYear year ≤ day)
    (notAfter : day < daysBeforeYear (year + 1)) : yearOfDay day = year := by
  obtain ⟨lower, upper⟩ := yearOfDay_bounds day
  have notLater : yearOfDay day < year + 1 :=
    daysBeforeYear_lt_iff.mp (lower.trans_lt notAfter)
  have notEarlier : year < yearOfDay day + 1 :=
    daysBeforeYear_lt_iff.mp (isIn.trans_lt upper)
  omega

theorem total_monthLengths (year : Int) : totalOf id (monthLengths year) = yearLength year := by
  rw [monthLengths, yearLength]
  split <;> rfl

/-! ## Months -/

/-- A day of a month is found from the days before it and itself. -/
theorem monthAndDay_eq {lengths : List Nat} {index length day : Nat} (month : Nat)
    (isLength : lengths[index]? = some length) (positive : 1 ≤ day) (inside : day ≤ length) :
    monthAndDay month lengths (totalOf id (lengths.take index) + day - 1) =
      (month + index, day) := by
  induction lengths generalizing month index with
  | nil => cases isLength
  | cons first later ih =>
      cases index with
      | zero =>
          obtain rfl := Option.some.inj isLength
          have isFirst : 0 + day - 1 < first := by omega
          rw [List.take_zero, totalOf_nil, monthAndDay, if_pos isFirst, Nat.zero_add,
            Nat.sub_add_cancel positive, Nat.add_zero]
      | succ index =>
          have isBehind : ¬first + totalOf id (later.take index) + day - 1 < first := by omega
          have remaining : first + totalOf id (later.take index) + day - 1 - first =
              totalOf id (later.take index) + day - 1 := by omega
          rw [List.take_succ_cons, totalOf_cons, id, monthAndDay, if_neg isBehind, remaining,
            ih (month + 1) isLength, Nat.add_right_comm, Nat.add_assoc]

/-- Every day that the months reach is a day of one of them. -/
theorem exists_day_of_le_total {lengths : List Nat} {total : Nat} (positive : 1 ≤ total)
    (inside : total ≤ totalOf id lengths) :
    ∃ index length day, lengths[index]? = some length ∧ 1 ≤ day ∧ day ≤ length ∧
      totalOf id (lengths.take index) + day = total := by
  induction lengths generalizing total with
  | nil => exact absurd (positive.trans inside) (by decide)
  | cons first later ih =>
      rw [totalOf_cons, id] at inside
      by_cases isFirst : total ≤ first
      · exact ⟨0, first, total, rfl, positive, isFirst, Nat.zero_add total⟩
      · obtain ⟨index, length, day, isLength, dayPositive, dayInside, isTotal⟩ :=
          @ih (total - first) (by omega) (by omega)
        refine ⟨index + 1, length, day, isLength, dayPositive, dayInside, ?_⟩
        rw [List.take_succ_cons, totalOf_cons, id]
        omega

/-! ## Dates -/

/-- The days of a year before a month, counted from one. -/
def daysBeforeMonth (year : Int) (month : Nat) : Nat :=
  totalOf id ((monthLengths year).take (month - 1))

/-- Whether a day of a year, counted from one, falls on a date. -/
structure FallsOn (year : Int) (dayOfYear : Nat) (date : Date) : Prop where
  sameYear : date.year = year
  monthPositive : 1 ≤ date.month
  dayPositive : 1 ≤ date.day
  dayInside : ∃ length, (monthLengths year)[date.month - 1]? = some length ∧ date.day ≤ length
  isTotal : daysBeforeMonth year date.month + date.day = dayOfYear

/-- The date found for the number of a day is the one on which it falls. -/
theorem FallsOn.dateOfDay_eq {year : Int} {dayOfYear : Nat} {date : Date}
    (falls : FallsOn year dayOfYear date) (inside : dayOfYear ≤ yearLength year) :
    dateOfDay (daysBeforeYear year + dayOfYear - 1) = date := by
  obtain ⟨rfl, monthPositive, dayPositive, ⟨length, isLength, dayInside⟩, isTotal⟩ := falls
  rw [daysBeforeMonth] at isTotal
  have isYear : yearOfDay (daysBeforeYear date.year + dayOfYear - 1) = date.year := by
    apply yearOfDay_eq
    · omega
    · rw [daysBeforeYear_succ]
      omega
  have position : (daysBeforeYear date.year + dayOfYear - 1 - daysBeforeYear date.year).toNat =
      totalOf id ((monthLengths date.year).take (date.month - 1)) + date.day - 1 := by omega
  simp only [dateOfDay, isYear, position, monthAndDay_eq 1 isLength dayPositive dayInside,
    Nat.add_sub_of_le monthPositive]

/-- A day of a year falls on the date found for its number, and on no other. -/
theorem fallsOn_iff {year : Int} {dayOfYear : Nat} (positive : 1 ≤ dayOfYear)
    (inside : dayOfYear ≤ yearLength year) (date : Date) :
    FallsOn year dayOfYear date ↔ date = dateOfDay (daysBeforeYear year + dayOfYear - 1) := by
  constructor
  · exact fun falls => (falls.dateOfDay_eq inside).symm
  · rintro rfl
    obtain ⟨index, length, day, isLength, dayPositive, dayInside, isDay⟩ :=
      exists_day_of_le_total positive (inside.trans_eq (total_monthLengths year).symm)
    have falls : FallsOn year dayOfYear ⟨year, index + 1, day⟩ :=
      ⟨rfl, Nat.le_add_left 1 index, dayPositive, ⟨length, isLength, dayInside⟩, isDay⟩
    rw [falls.dateOfDay_eq inside]
    exact falls

end Waveform.Calendar
