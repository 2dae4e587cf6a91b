import Waveform.Proofs.Time.Dates
import Waveform.Time.RecordTime

/-!
# Times of records and their text

A record's time is a day number, a second of that day and a fraction of that second, and these three
are found again in its microseconds by division. So the microseconds are ordered as the components
are, and their text holds the components as numerals between characters that are not digits, from
which they are read back. A time before the epoch has negative microseconds, for which division
rounds down.
-/

namespace Waveform

open Calendar (FallsOn dateOfDay daysBeforeYear)

/-! ## Numerals in a text -/

namespace Time

/-- Whether characters are the decimal digits of a number, possibly with zeros in front. -/
structure IsNumeral (digits : List Char) (number : Nat) : Prop where
  notEmpty : digits ≠ []
  areDigits : ∀ character ∈ digits, character.isDigit
  value : Nat.ofDigitChars 10 digits 0 = number

/-- The numbers whose digits stand in a text between other characters. -/
def numbersIn (characters : List Char) : List Nat :=
  ((characters.splitOnP fun character => !character.isDigit).filter (· ≠ [])).map
    fun digits => Nat.ofDigitChars 10 digits 0

theorem toList_padded (width number : Nat) : ∃ zeros,
    (padded width number).toList = List.replicate zeros '0' ++ Nat.toDigits 10 number := by
  refine ⟨width - (toString number).length, ?_⟩
  rw [padded, String.toList_append, String.toList_ofList, Nat.toString_eq_ofList_toDigits,
    String.toList_ofList]

theorem isNumeral_zeros_append (zeros number : Nat) :
    IsNumeral (List.replicate zeros '0' ++ Nat.toDigits 10 number) number where
  notEmpty := List.append_ne_nil_of_right_ne_nil _ Nat.toDigits_ne_nil
  areDigits := by
    intro character mem
    rcases List.mem_append.mp mem with isZero | isDigit
    · rw [List.eq_of_mem_replicate isZero]
      rfl
    · exact Nat.isDigit_of_mem_toDigits (by decide) (by decide) isDigit
  value := by
    rw [Nat.ofDigitChars_append, Nat.ofDigitChars_replicate_zero, Nat.mul_zero,
      Nat.ofDigitChars_ten_toDigits]

theorem isNumeral_padded (width number : Nat) :
    IsNumeral (padded width number).toList number := by
  obtain ⟨zeros, isPadded⟩ := toList_padded width number
  rw [isPadded]
  exact isNumeral_zeros_append zeros number

section
variable {digits : List Char} {number : Nat} {separator : Char}

theorem IsNumeral.splits (numeral : IsNumeral digits number) :
    ∀ character ∈ digits, (!character.isDigit) = false := fun character mem => by
  rw [numeral.areDigits character mem, Bool.not_true]

theorem IsNumeral.numbersIn_eq (numeral : IsNumeral digits number) :
    numbersIn digits = [number] := by
  rw [numbersIn, List.splitOnP_eq_singleton numeral.splits,
    List.filter_cons_of_pos (by simpa using numeral.notEmpty), List.filter_nil,
    List.map_cons, numeral.value, List.map_nil]

theorem IsNumeral.numbersIn_append (numeral : IsNumeral digits number)
    (separates : separator.isDigit = false) (later : List Char) :
    numbersIn (digits ++ separator :: later) = number :: numbersIn later := by
  rw [numbersIn, List.splitOnP_append_cons_of_forall_mem numeral.splits separator
    (by rw [separates, Bool.not_false]),
    List.filter_cons_of_pos (by simpa using numeral.notEmpty), List.map_cons, numeral.value,
    numbersIn]

theorem numbersIn_separator_cons (separates : separator.isDigit = false) (later : List Char) :
    numbersIn (separator :: later) = numbersIn later := by
  have cut : (separator :: later).splitOnP (fun character => !character.isDigit) =
      [] :: later.splitOnP fun character => !character.isDigit :=
    @List.splitOnP_append_cons_of_forall_mem _ _ [] (fun _ => nofun) separator
      (by rw [separates, Bool.not_false]) later
  rw [numbersIn, cut, List.filter_cons_of_neg (by decide), numbersIn]

/-- A year's number is the first that its text holds, also behind a sign. -/
theorem numbersIn_yearText (year : Nat) (separates : separator.isDigit = false)
    (later : List Char) :
    numbersIn ((yearText year).toList ++ separator :: later) = year :: numbersIn later := by
  rw [yearText, if_neg (Int.not_lt.mpr (Int.natCast_nonneg year)), Int.natAbs_natCast]
  split
  next =>
    have signed : ("+" ++ toString (year : Int)).toList = '+' :: Nat.toDigits 10 year := by
      rw [String.toList_append]
      exact congrArg ('+' :: ·) String.toList_ofList
    rw [signed, List.cons_append, numbersIn_separator_cons rfl]
    exact (isNumeral_zeros_append 0 year).numbersIn_append separates later
  next => exact (isNumeral_padded 4 year).numbersIn_append separates later

end

end Time

namespace RecordTime

/-! ## Days, seconds and fractions -/

/-- The number of the day of a time in the count of all days. -/
def dayNumber (time : RecordTime) : Int := daysBeforeYear time.year + time.day - 1

/-- The second of the day of a time. -/
def secondOfDay (time : RecordTime) : Nat := time.hour * 3600 + time.minute * 60 + time.second

theorem seconds_eq (time : RecordTime) :
    time.seconds = (time.dayNumber - Calendar.epochDay) * 86400 + time.secondOfDay := rfl

theorem micros?_eq_some_iff {time : RecordTime} {micros : Int} :
    time.micros? = some micros ↔
      time.IsValid ∧ micros = time.seconds * 1000000 + (time.tenthMillis * 100 : Nat) := by
  rw [micros?, Option.ite_none_right_eq_some, Option.some.injEq, eq_comm (b := micros)]
  rfl

/-! ## The order of times -/

/-- The components of a time from the year on. -/
def components (time : RecordTime) : List Nat :=
  [time.year, time.day, time.hour, time.minute, time.second, time.tenthMillis]

section
variable {first second : RecordTime}

/-- A later year starts behind all days of an earlier one. -/
theorem dayNumber_lt_of_year_lt (firstValid : first.IsValid) (secondValid : second.IsValid)
    (isEarlier : first.year < second.year) : first.dayNumber < second.dayNumber := by
  have inside : first.day ≤ Calendar.yearLength first.year := firstValid.2.1
  have positive : 1 ≤ second.day := secondValid.1
  have starts : daysBeforeYear (first.year + 1) ≤ daysBeforeYear second.year := by
    rw [← Int.not_lt, Calendar.daysBeforeYear_lt_iff]
    omega
  rw [Calendar.daysBeforeYear_succ] at starts
  rw [dayNumber, dayNumber]
  omega

theorem dayNumber_lt_iff (firstValid : first.IsValid) (secondValid : second.IsValid) :
    first.dayNumber < second.dayNumber ↔
      first.year < second.year ∨ first.year = second.year ∧ first.day < second.day := by
  rcases lt_trichotomy first.year second.year with isEarlier | isSame | isLater
  · have isBefore := dayNumber_lt_of_year_lt firstValid secondValid isEarlier
    omega
  · rw [dayNumber, dayNumber, isSame]
    omega
  · have isBehind := dayNumber_lt_of_year_lt secondValid firstValid isLater
    omega

theorem dayNumber_eq_iff (firstValid : first.IsValid) (secondValid : second.IsValid) :
    first.dayNumber = second.dayNumber ↔ first.year = second.year ∧ first.day = second.day := by
  have notBefore := dayNumber_lt_iff firstValid secondValid
  have notBehind := dayNumber_lt_iff secondValid firstValid
  constructor
  · intro isSame
    omega
  · rintro ⟨sameYear, sameDay⟩
    rw [dayNumber, dayNumber, sameYear, sameDay]

/-- Seconds of a day are ordered as hour, minute and second are, but for a leap second, which is as
late as the first second of the next minute. -/
theorem secondOfDay_lt_iff (firstValid : first.IsValid) (secondValid : second.IsValid)
    (firstPlain : first.second ≤ 59) (secondPlain : second.second ≤ 59) :
    first.secondOfDay < second.secondOfDay ↔ first.hour < second.hour ∨
      first.hour = second.hour ∧ (first.minute < second.minute ∨
        first.minute = second.minute ∧ first.second < second.second) := by
  obtain ⟨-, -, -, firstMinute, -, -⟩ := firstValid
  obtain ⟨-, -, -, secondMinute, -, -⟩ := secondValid
  rw [secondOfDay, secondOfDay]
  omega

theorem secondOfDay_eq_iff (firstValid : first.IsValid) (secondValid : second.IsValid)
    (firstPlain : first.second ≤ 59) (secondPlain : second.second ≤ 59) :
    first.secondOfDay = second.secondOfDay ↔ first.hour = second.hour ∧
      first.minute = second.minute ∧ first.second = second.second := by
  have notBefore := secondOfDay_lt_iff firstValid secondValid firstPlain secondPlain
  have notBehind := secondOfDay_lt_iff secondValid firstValid secondPlain firstPlain
  constructor
  · intro isSame
    omega
  · rintro ⟨sameHour, sameMinute, sameSecond⟩
    rw [secondOfDay, secondOfDay, sameHour, sameMinute, sameSecond]

theorem secondOfDay_lt (isValid : first.IsValid) (isPlain : first.second ≤ 59) :
    first.secondOfDay < 86400 := by
  obtain ⟨-, -, hour, minute, -, -⟩ := isValid
  rw [secondOfDay]
  omega

/-- Times are ordered by their days, then by the seconds of the day, then by the fractions. -/
theorem micros_lt_iff_parts {firstMicros secondMicros : Int}
    (firstIs : first.micros? = some firstMicros) (secondIs : second.micros? = some secondMicros)
    (firstPlain : first.second ≤ 59) (secondPlain : second.second ≤ 59) :
    firstMicros < secondMicros ↔ first.dayNumber < second.dayNumber ∨
      first.dayNumber = second.dayNumber ∧ (first.secondOfDay < second.secondOfDay ∨
        first.secondOfDay = second.secondOfDay ∧ first.tenthMillis < second.tenthMillis) := by
  obtain ⟨firstValid, rfl⟩ := micros?_eq_some_iff.mp firstIs
  obtain ⟨secondValid, rfl⟩ := micros?_eq_some_iff.mp secondIs
  have firstInside := secondOfDay_lt firstValid firstPlain
  have secondInside := secondOfDay_lt secondValid secondPlain
  obtain ⟨-, -, -, -, -, firstFraction⟩ := firstValid
  obtain ⟨-, -, -, -, -, secondFraction⟩ := secondValid
  rw [seconds_eq, seconds_eq]
  omega

theorem micros_lt_iff {firstMicros secondMicros : Int}
    (firstIs : first.micros? = some firstMicros) (secondIs : second.micros? = some secondMicros)
    (firstPlain : first.second ≤ 59) (secondPlain : second.second ≤ 59) :
    firstMicros < secondMicros ↔ first.components < second.components := by
  have firstValid := (micros?_eq_some_iff.mp firstIs).1
  have secondValid := (micros?_eq_some_iff.mp secondIs).1
  rw [micros_lt_iff_parts firstIs secondIs firstPlain secondPlain,
    dayNumber_lt_iff firstValid secondValid, dayNumber_eq_iff firstValid secondValid,
    secondOfDay_lt_iff firstValid secondValid firstPlain secondPlain,
    secondOfDay_eq_iff firstValid secondValid firstPlain secondPlain]
  simp only [components, List.cons_lt_cons_iff, List.lt_irrefl, and_false, or_false, and_or_left,
    and_assoc, or_assoc]

end

/-! ## The text of a time -/

/-- The text of a time on the date of its day. -/
def textOn (time : RecordTime) (date : Calendar.Date) : String :=
  Time.yearText time.year ++ "/" ++ Time.padded 2 date.month ++ "/" ++ Time.padded 2 date.day ++
    " " ++ Time.padded 2 time.hour ++ ":" ++ Time.padded 2 time.minute ++ ":" ++
    Time.padded 2 time.second ++ "." ++ Time.padded 6 (time.tenthMillis * 100)

/-- The time whose components stand in a text. -/
def ofText? (text : String) : Option RecordTime :=
  match Time.numbersIn text.toList with
  | [year, month, day, hour, minute, second, micros] =>
      some ⟨year, Calendar.daysBeforeMonth year month + day, hour, minute, second, micros / 100⟩
  | _ => none

section
variable {time : RecordTime} {micros : Int}

theorem fallsOn_iff_eq_dateOfDay (isValid : time.IsValid) (date : Calendar.Date) :
    FallsOn time.year time.day date ↔ date = dateOfDay time.dayNumber :=
  Calendar.fallsOn_iff isValid.1 isValid.2.1 date

/-- The years of a word lie in the range that has dates. -/
theorem isDated_micros (isTime : time.micros? = some micros) (isPlain : time.second ≤ 59)
    (isWord : time.year < 65536) : Time.isDated micros := by
  obtain ⟨isValid, rfl⟩ := micros?_eq_some_iff.mp isTime
  have ofDay := secondOfDay_lt isValid isPlain
  obtain ⟨positive, inside, -, -, -, fraction⟩ := isValid
  have isShort : Calendar.yearLength time.year ≤ 366 := by
    rw [Calendar.yearLength]
    split <;> decide
  rw [Time.isDated, decide_eq_true_eq, Time.calendarRange, seconds_eq, dayNumber, daysBeforeYear,
    Calendar.epochDay]
  omega

/-- Dividing the microseconds of a time finds its seconds and its fraction. -/
theorem div_mod_second (isTime : time.micros? = some micros) :
    micros / Time.second = time.seconds ∧
      micros % Time.second = (time.tenthMillis * 100 : Nat) := by
  obtain ⟨⟨-, -, -, -, -, fraction⟩, rfl⟩ := micros?_eq_some_iff.mp isTime
  rw [Time.second]
  omega

/-- Dividing the seconds of a time finds its day and its second of the day. -/
theorem div_mod_secondsPerDay (isValid : time.IsValid) (isPlain : time.second ≤ 59) :
    time.seconds / Time.secondsPerDay = time.dayNumber - Calendar.epochDay ∧
      time.seconds % Time.secondsPerDay = time.secondOfDay := by
  have ofDay := secondOfDay_lt isValid isPlain
  rw [Time.secondsPerDay, seconds_eq]
  omega

/-- Dividing the second of the day finds hour, minute and second. -/
theorem div_mod_secondOfDay (isValid : time.IsValid) (isPlain : time.second ≤ 59) :
    time.secondOfDay / 3600 = time.hour ∧ time.secondOfDay / 60 % 60 = time.minute ∧
      time.secondOfDay % 60 = time.second := by
  obtain ⟨-, -, -, minute, -, -⟩ := isValid
  rw [secondOfDay]
  omega

theorem text_micros (isTime : time.micros? = some micros) (isPlain : time.second ≤ 59)
    (isWord : time.year < 65536) : Time.text micros = time.textOn (dateOfDay time.dayNumber) := by
  have isValid := (micros?_eq_some_iff.mp isTime).1
  obtain ⟨seconds, fraction⟩ := div_mod_second isTime
  obtain ⟨day, ofDay⟩ := div_mod_secondsPerDay isValid isPlain
  obtain ⟨hour, minute, second⟩ := div_mod_secondOfDay isValid isPlain
  have sameYear : (dateOfDay time.dayNumber).year = time.year :=
    ((fallsOn_iff_eq_dateOfDay isValid _).mpr rfl).sameYear
  rw [Time.text, if_pos (isDated_micros isTime isPlain isWord)]
  simp only [Time.datedText, seconds, fraction, day, ofDay, Int.sub_add_cancel, Int.toNat_natCast,
    hour, minute, second, sameYear, textOn]

theorem numbersIn_textOn (date : Calendar.Date) :
    Time.numbersIn (time.textOn date).toList =
      [time.year, date.month, date.day, time.hour, time.minute, time.second,
        time.tenthMillis * 100] := by
  have slash : "/".toList = ['/'] := rfl
  have blank : " ".toList = [' '] := rfl
  have colon : ":".toList = [':'] := rfl
  have point : ".".toList = ['.'] := rfl
  simp only [textOn, String.toList_append, List.append_assoc, slash, blank, colon, point,
    List.cons_append, List.nil_append]
  rw [Time.numbersIn_yearText _ rfl, (Time.isNumeral_padded 2 _).numbersIn_append rfl,
    (Time.isNumeral_padded 2 _).numbersIn_append rfl,
    (Time.isNumeral_padded 2 _).numbersIn_append rfl,
    (Time.isNumeral_padded 2 _).numbersIn_append rfl,
    (Time.isNumeral_padded 2 _).numbersIn_append rfl, (Time.isNumeral_padded 6 _).numbersIn_eq]

theorem ofText?_textOn {date : Calendar.Date} (falls : FallsOn time.year time.day date) :
    ofText? (time.textOn date) = some time := by
  simp only [ofText?, numbersIn_textOn, falls.isTotal, Nat.mul_div_cancel _ (by decide : 0 < 100)]

end

/-- A sixtieth second is one second behind the fifty-ninth. -/
theorem micros?_leapSecond (time : RecordTime) :
    { time with second := 60 }.micros? =
      { time with second := 59 }.micros?.map (· + Time.second) := by
  have sameValid : { time with second := 60 }.IsValid ↔ { time with second := 59 }.IsValid := by
    simp only [IsValid, Nat.le_refl, true_and, (by decide : 59 ≤ 60)]
  by_cases isValid : { time with second := 59 }.IsValid
  · rw [micros?, micros?, if_pos (sameValid.mpr isValid), if_pos isValid, Option.map_some]
    simp only [seconds, Time.second]
    congr 1
    omega
  · rw [micros?, micros?, if_neg (mt sameValid.mp isValid), if_neg isValid, Option.map_none]

/-- The microseconds of times that are no leap seconds are ordered as their components are, and
their text is the date on which alone the day falls, with the time of day and six digits of the
second, from which the components are read back. A leap second is a second behind the one before
it. -/
theorem micros_orderedReadable {time : RecordTime} {micros : Int}
    (isTime : time.micros? = some micros) (isPlain : time.second ≤ 59)
    (isWord : time.year < 65536) :
    (∀ (other : RecordTime) otherMicros, other.micros? = some otherMicros → other.second ≤ 59 →
      (micros < otherMicros ↔ time.components < other.components)) ∧
    (∃ date, (∀ found, FallsOn time.year time.day found ↔ found = date) ∧
      Time.text micros = time.textOn date) ∧
    ofText? (Time.text micros) = some time ∧
    ∀ leap : RecordTime, { leap with second := 60 }.micros? =
      { leap with second := 59 }.micros?.map (· + Time.second) := by
  have isValid := (micros?_eq_some_iff.mp isTime).1
  have isText := text_micros isTime isPlain isWord
  have isDate := fallsOn_iff_eq_dateOfDay isValid
  refine ⟨?_, ⟨dateOfDay time.dayNumber, isDate, isText⟩, ?_, micros?_leapSecond⟩
  · exact fun other otherMicros otherIs otherPlain =>
      micros_lt_iff isTime otherIs isPlain otherPlain
  · rw [isText, ofText?_textOn ((isDate _).mpr rfl)]

/-- The sixty-first day of a leap year is the first of March. -/
theorem micros_orderedReadable_march :
    micros? ⟨2012, 61, 12, 30, 15, 2500⟩ = some 1330605015250000 ∧
      Time.text 1330605015250000 = "2012/03/01 12:30:15.250000" ∧
      ofText? "2012/03/01 12:30:15.250000" = some ⟨2012, 61, 12, 30, 15, 2500⟩ := by
  have isTime : micros? ⟨2012, 61, 12, 30, 15, 2500⟩ = some 1330605015250000 := by decide
  have isText : Time.text 1330605015250000 = "2012/03/01 12:30:15.250000" := by decide +kernel
  obtain ⟨-, -, isRead, -⟩ := micros_orderedReadable isTime (by decide) (by decide)
  rw [isText] at isRead
  exact ⟨isTime, isText, isRead⟩

end RecordTime

end Waveform
