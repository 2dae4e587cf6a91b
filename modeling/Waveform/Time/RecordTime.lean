import Waveform.Time.Timestamp

/-!
# Times as records store them

A record gives a time as year, day of the year, time of day and ten-thousandths of a second. A
sixtieth second stands for a leap second and counts as the first second of the next minute.
-/

namespace Waveform

/-- The components of a time as a record stores them; the day counts from the first of January,
which is day one. -/
structure RecordTime where
  year : Nat
  day : Nat
  hour : Nat
  minute : Nat
  second : Nat
  tenthMillis : Nat
deriving DecidableEq

namespace RecordTime

/-- Whether the components are a time. -/
def IsValid (time : RecordTime) : Prop :=
  1 ≤ time.day ∧ time.day ≤ Calendar.yearLength time.year ∧ time.hour < 24 ∧ time.minute < 60 ∧
    time.second ≤ 60 ∧ time.tenthMillis ≤ 9999

instance (time : RecordTime) : Decidable time.IsValid := by unfold IsValid; infer_instance

/-- The seconds between the epoch and the components, without the fraction. -/
def seconds (time : RecordTime) : Int :=
  let days := Calendar.daysBeforeYear time.year + (time.day : Int) - 1 - Calendar.epochDay
  days * Time.secondsPerDay + (time.hour * 3600 + time.minute * 60 + time.second : Nat)

/-- The time in microseconds since the epoch, if the components are one. -/
def micros? (time : RecordTime) : Option Int :=
  if time.IsValid then some (time.seconds * Time.second + (time.tenthMillis * 100 : Nat)) else none

end RecordTime

end Waveform
