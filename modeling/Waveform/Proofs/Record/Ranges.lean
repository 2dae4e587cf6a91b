import Mathlib.Tactic.Ring
import Waveform.Record.Record

/-!
# The ranges of a record's numbers

The numbers of a header are words of a few bytes, and a record starts in a year from 1900 to 2100 if
its start is sensible at all. So a record announces fewer samples than a word of two bytes has
values, and its start is far from both ends of what sixty-four bits hold.
-/

namespace Waveform

namespace ByteOrder

/-- Digits that follow a number lead to less than the number's successor does. -/
theorem foldl_digits_lt (digits : List UInt8) (value : Nat) :
    digits.foldl (fun value digit => 256 * value + digit.toNat) value <
      (value + 1) * wordCount digits.length := by
  induction digits generalizing value with
  | nil => simp [wordCount]
  | cons digit later ih =>
      have isDigit : digit.toNat < 256 := digit.toNat_lt
      have upTo : 256 * value + digit.toNat + 1 ≤ (value + 1) * 256 := by omega
      calc later.foldl (fun value digit => 256 * value + digit.toNat) (256 * value + digit.toNat)
          < (256 * value + digit.toNat + 1) * wordCount later.length := ih _
        _ ≤ (value + 1) * 256 * wordCount later.length := Nat.mul_le_mul_right _ upTo
        _ = (value + 1) * wordCount (digit :: later).length := by
            rw [Nat.mul_assoc, wordCount, wordCount, List.length_cons, Nat.pow_eq, Nat.pow_eq,
              Nat.pow_succ']

theorem unsigned_lt (order : ByteOrder) (word : List UInt8) :
    order.unsigned word < wordCount word.length := by
  have isBelow := foldl_digits_lt (order.mostSignificantFirst word) 0
  have sameLength : (order.mostSignificantFirst word).length = word.length := by
    cases order <;> simp
  rw [sameLength, Nat.zero_add, Nat.one_mul] at isBelow
  exact isBelow

end ByteOrder

variable {buffer : List UInt8}

theorem wordAt_lt (order : ByteOrder) (buffer : List UInt8) (offset width : Nat) :
    wordAt order buffer offset width < wordCount width := by
  have short : (bytesAt buffer offset width).length ≤ width := by
    rw [bytesAt, List.length_take]
    exact Nat.min_le_left _ _
  exact Nat.lt_of_lt_of_le (order.unsigned_lt _) (Nat.pow_le_pow_right (by decide) short)

theorem Header.decode_eq_ok_iff {header : Header} :
    decode buffer = .ok header ↔
      Header.length ≤ buffer.length ∧ isIndicator (byteAt buffer 6) = true ∧
        ∃ order, detectOrder? buffer = some order ∧ Header.read order buffer = header := by
  unfold decode
  by_cases isShort : buffer.length < Header.length
  · simp [isShort, Nat.not_le_of_lt isShort]
  cases isKnown : isIndicator (byteAt buffer 6) with
  | false => simp [isShort]
  | true =>
      cases isDetected : detectOrder? buffer with
      | none => simp [isShort]
      | some order => simp [isShort, Nat.le_of_not_lt isShort]

theorem Header.isSensible_of_decode {header : Header} (isDecoded : decode buffer = .ok header) :
    header.start.isSensible = true := by
  obtain ⟨_, _, order, isDetected, rfl⟩ := decode_eq_ok_iff.mp isDecoded
  rw [detectOrder?] at isDetected
  exact List.find?_some (p := fun order =>
    (RecordTime.read order buffer startOffset).isSensible) isDetected

/-- A time in a sensible year lies within 2⁵² microseconds of the epoch. -/
theorem RecordTime.micros_bounds {time : RecordTime} {micros : Int}
    (isTime : time.micros? = some micros) (isSensible : time.isSensible = true) :
    -2 ^ 52 ≤ micros ∧ micros ≤ 2 ^ 52 := by
  obtain ⟨atLeast, atMost, _, _⟩ : 1900 ≤ time.year ∧ time.year ≤ 2100 ∧ 1 ≤ time.day ∧
      time.day ≤ 366 := by simpa [RecordTime.isSensible] using isSensible
  rw [micros?] at isTime
  split at isTime
  next isValid =>
    obtain ⟨_, _, hour, minute, second, tenthMillis⟩ := isValid
    cases isTime
    have year : 693000 ≤ Calendar.daysBeforeYear time.year ∧
        Calendar.daysBeforeYear time.year ≤ 767000 := by
      rw [Calendar.daysBeforeYear]
      omega
    rw [RecordTime.seconds, Calendar.epochDay, Time.secondsPerDay, Time.second]
    omega
  next => cases isTime

namespace Record

variable {record : Record}

theorem decode_eq_ok_iff :
    decode buffer = .ok record ↔
      Header.decode buffer = .ok record.header ∧ record.header.start.micros? = some record.start ∧
        record.blockettes = record.header.blockettes buffer ∧ record.bytes = buffer := by
  rw [decode]
  cases Header.decode buffer with
  | error error => simp [bind, Except.bind]
  | ok header =>
      obtain ⟨recordHeader, blockettes, start, bytes⟩ := record
      dsimp only [bind, Except.bind]
      cases isTime : header.start.micros? with
      | none =>
          simp only [reduceCtorEq, Except.ok.injEq, false_iff]
          rintro ⟨rfl, isOther, _⟩
          rw [isTime] at isOther
          cases isOther
      | some micros =>
          simp only [Except.ok.injEq, Record.mk.injEq]
          constructor
          · rintro ⟨rfl, rfl, rfl, rfl⟩
            exact ⟨rfl, isTime, rfl, rfl⟩
          · rintro ⟨rfl, isOther, rfl, rfl⟩
            rw [isTime] at isOther
            cases isOther
            exact ⟨rfl, rfl, rfl, rfl⟩

/-- The number of samples is a word of two bytes. -/
theorem sampleCount_lt (isDecoded : decode buffer = .ok record) :
    record.header.sampleCount < UInt16.size := by
  obtain ⟨isHeader, _⟩ := decode_eq_ok_iff.mp isDecoded
  obtain ⟨_, _, order, _, isRead⟩ := Header.decode_eq_ok_iff.mp isHeader
  rw [← isRead]
  exact wordAt_lt order buffer 30 2

theorem start_bounds (isDecoded : decode buffer = .ok record) :
    -2 ^ 52 ≤ record.start ∧ record.start ≤ 2 ^ 52 := by
  obtain ⟨isHeader, isTime, _⟩ := decode_eq_ok_iff.mp isDecoded
  exact RecordTime.micros_bounds isTime (Header.isSensible_of_decode isHeader)

end Record

end Waveform
