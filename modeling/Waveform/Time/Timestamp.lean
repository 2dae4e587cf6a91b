import Waveform.Time.Calendar

/-!
# Times of day and their text

A time is a number of microseconds since the start of 1970 in coordinated universal time. Its text
is the date, the time of day and six digits of the second; a time that is out of the calendar's
range is written as its number.
-/

namespace Waveform.Time

/-- The number of microseconds of a second. -/
def second : Int := 1000000

/-- The number of seconds of a day. -/
def secondsPerDay : Int := 86400

/-- The first and the last time that have a date. -/
def calendarRange : Int × Int := (-8334601228800000000, 8210266876799999999)

/-- Whether a time has a date. -/
def isDated (time : Int) : Bool := calendarRange.1 ≤ time ∧ time ≤ calendarRange.2

/-- A natural number with zeros in front up to a width. -/
def padded (width number : Nat) : String :=
  let digits := toString number
  String.ofList (List.replicate (width - digits.length) '0') ++ digits

/-- A year in four digits; a sign marks the years of more digits and those before year zero. -/
def yearText (year : Int) : String :=
  if year < 0 then "-" ++ padded 4 year.natAbs
  else if 9999 < year then "+" ++ toString year
  else padded 4 year.natAbs

/-- The text of a time that has a date. -/
def datedText (time : Int) : String :=
  let seconds := time / second
  let date := Calendar.dateOfDay (seconds / secondsPerDay + Calendar.epochDay)
  let ofDay := (seconds % secondsPerDay).toNat
  yearText date.year ++ "/" ++ padded 2 date.month ++ "/" ++ padded 2 date.day ++ " " ++
    padded 2 (ofDay / 3600) ++ ":" ++ padded 2 (ofDay / 60 % 60) ++ ":" ++ padded 2 (ofDay % 60) ++
    "." ++ padded 6 (time % second).toNat

/-- The text of a time. -/
def text (time : Int) : String :=
  if isDated time then datedText time else toString time ++ "us"

end Waveform.Time
