import Mathlib.Data.List.Infix
import Mathlib.Tactic.Ring
import Waveform.Record.Record

/-!
# Records and the bytes behind them

A record is recognised from its beginning: whatever bytes follow, a buffer that holds a header gives
the same header, and the blockettes found in it stay where they are, though more of the chain may
come to light behind them. So a buffer that announces a record's length goes on announcing it.
-/

namespace Waveform

variable {buffer : List UInt8} {order : ByteOrder} {offset width : Nat}

/-! ## Words inside a buffer -/

theorem bytesAt_append (inside : offset + width ≤ buffer.length) (more : List UInt8) :
    bytesAt (buffer ++ more) offset width = bytesAt buffer offset width := by
  have starts : offset ≤ buffer.length := by omega
  have fits : width ≤ (buffer.drop offset).length := by
    rw [List.length_drop]
    omega
  rw [bytesAt, List.drop_append_of_le_length starts, List.take_append_of_le_length fits, bytesAt]

theorem wordAt_append (inside : offset + width ≤ buffer.length) (more : List UInt8) :
    wordAt order (buffer ++ more) offset width = wordAt order buffer offset width := by
  rw [wordAt, bytesAt_append inside, wordAt]

theorem signedWordAt_append (inside : offset + width ≤ buffer.length) (more : List UInt8) :
    signedWordAt order (buffer ++ more) offset width = signedWordAt order buffer offset width := by
  rw [signedWordAt, bytesAt_append inside, signedWordAt]

theorem byteAt_append (inside : offset < buffer.length) (more : List UInt8) :
    byteAt (buffer ++ more) offset = byteAt buffer offset := by
  rw [byteAt, byteAt, List.getD_eq_getElem?_getD, List.getD_eq_getElem?_getD,
    List.getElem?_append_left inside]

theorem textAt_append (inside : offset + width ≤ buffer.length) (more : List UInt8) :
    textAt (buffer ++ more) offset width = textAt buffer offset width := by
  rw [textAt, bytesAt_append inside, textAt]

theorem RecordTime.read_append (inside : offset + 10 ≤ buffer.length) (more : List UInt8) :
    RecordTime.read order (buffer ++ more) offset = RecordTime.read order buffer offset := by
  simp (disch := omega) only [RecordTime.read, wordAt_append, byteAt_append]

/-! ## The header -/

namespace Header

/-- All fields of a header stand in its forty-eight bytes. -/
theorem read_append (isWhole : Header.length ≤ buffer.length) (more : List UInt8) :
    Header.read order (buffer ++ more) = Header.read order buffer := by
  have holds : 48 ≤ buffer.length := isWhole
  simp (disch := omega) only [Header.read, startOffset, RecordTime.read_append, wordAt_append,
    signedWordAt_append, byteAt_append, textAt_append]

theorem detectOrder?_append (isWhole : Header.length ≤ buffer.length) (more : List UInt8) :
    detectOrder? (buffer ++ more) = detectOrder? buffer := by
  have holds : 48 ≤ buffer.length := isWhole
  simp (disch := omega) only [detectOrder?, startOffset, RecordTime.read_append]

theorem length_le_of_decode {header : Header} (isDecoded : Header.decode buffer = .ok header) :
    Header.length ≤ buffer.length := by
  unfold decode at isDecoded
  split at isDecoded
  next => cases isDecoded
  next notShort => exact Nat.le_of_not_lt notShort

/-- A header does not depend on what follows it. -/
theorem decode_append {header : Header} (isDecoded : Header.decode buffer = .ok header)
    (more : List UInt8) : Header.decode (buffer ++ more) = .ok header := by
  have isWhole := length_le_of_decode isDecoded
  have notShort : ¬(buffer ++ more).length < Header.length := by
    rw [List.length_append]
    omega
  have hasIndicator : 6 < buffer.length := Nat.lt_of_lt_of_le (by decide) isWhole
  rw [decode, if_neg (Nat.not_lt_of_le isWhole)] at isDecoded
  rw [decode, if_neg notShort, byteAt_append hasIndicator, detectOrder?_append isWhole]
  simp only [read_append isWhole]
  exact isDecoded

end Header

/-! ## The chain of blockettes -/

namespace Blockette

variable {bytes : List UInt8} {kind : Nat}

theorem read_append (holds : leastLength kind ≤ bytes.length) (more : List UInt8) :
    Blockette.read order (bytes ++ more) kind = Blockette.read order bytes kind := by
  unfold Blockette.read
  split
  next =>
    have holds : 7 ≤ bytes.length := holds
    simp (disch := omega) only [byteAt_append]
  next =>
    have holds : 8 ≤ bytes.length := holds
    simp (disch := omega) only [byteAt_append, signedWordAt_append]
  next =>
    have holds : 64 ≤ bytes.length := holds
    simp (disch := omega) only [Calibration.read, RecordTime.read_append, byteAt_append,
      wordAt_append, textAt_append]
  next => rfl

/-- A blockette that is not cut off does not depend on what follows it. -/
theorem decode?_append {blockette : Blockette} (isDecoded : decode? order bytes = some blockette)
    (more : List UInt8) : decode? order (bytes ++ more) = some blockette := by
  simp only [decode?] at isDecoded ⊢
  split at isDecoded
  next holds =>
    have grown : bytes.length ≤ (bytes ++ more).length := by
      rw [List.length_append]
      exact Nat.le_add_right _ _
    rw [wordAt_append (by omega), if_pos ⟨holds.1.trans grown, holds.2.trans grown⟩,
      read_append holds.2]
    exact isDecoded
  next => cases isDecoded

theorem two_le_length_of_decode? {blockette : Blockette}
    (isDecoded : decode? order bytes = some blockette) : 2 ≤ bytes.length := by
  simp only [decode?] at isDecoded
  split at isDecoded
  next holds => exact holds.1
  next => cases isDecoded

/-- The chain found in a buffer is the beginning of the chain found when more bytes follow. -/
theorem chain_append (order : ByteOrder) (buffer more : List UInt8) (limit offset : Nat) :
    chain order buffer limit offset <+: chain order (buffer ++ more) limit offset := by
  induction limit generalizing offset with
  | zero => exact List.prefix_rfl
  | succ limit ih =>
      simp only [chain]
      split
      next => exact List.prefix_rfl
      next =>
        cases isDecoded : decode? order (buffer.drop offset) with
        | none => exact List.nil_prefix
        | some blockette =>
            have holds := two_le_length_of_decode? isDecoded
            rw [List.length_drop] at holds
            rw [List.drop_append_of_le_length (by omega), decode?_append isDecoded]
            refine (List.cons_prefix_cons).mpr ⟨rfl, ?_⟩
            -- Where the next offset is cut off the chain ends, and it may go on with more bytes.
            by_cases isCutOff : offset + 4 ≤ buffer.length
            · have sameNext : nextOffset order (buffer ++ more) offset =
                  nextOffset order buffer offset := by
                have fits : offset + 4 ≤ (buffer ++ more).length := by
                  rw [List.length_append]
                  omega
                rw [nextOffset, nextOffset, if_pos fits, if_pos isCutOff, wordAt_append (by omega)]
              rw [sameNext]
              split
              next => exact List.prefix_rfl
              next => exact ih _
            · have noNext : nextOffset order buffer offset = 0 := if_neg isCutOff
              rw [noNext, if_pos (Nat.zero_le offset)]
              exact List.nil_prefix

end Blockette

/-- The blockettes found in a buffer come first among those found when more bytes follow. -/
theorem Header.blockettes_append (header : Header) (buffer more : List UInt8) :
    header.blockettes buffer <+: header.blockettes (buffer ++ more) :=
  Blockette.chain_append header.byteOrder buffer more blocketteLimit header.firstBlockette

/-! ## The announced length -/

theorem DataFormat.lengthInBytes?_eq_some_iff {format : DataFormat} {length : Nat} :
    format.lengthInBytes? = some length ↔
      (8 ≤ format.exponent ∧ format.exponent ≤ 14) ∧ length = 2 ^ format.exponent := by
  simp only [lengthInBytes?]
  split
  next supported => simp [supported, eq_comm]
  next unsupported => simp [unsupported]

namespace Record

/-- A buffer announces a length if it holds a header and the first blockette that tells the storage
format gives that length. -/
theorem announcedLength_eq_ok_iff {length : Nat} :
    Record.announcedLength buffer = .ok length ↔
      ∃ header format, Header.decode buffer = .ok header ∧
        (header.blockettes buffer).findSome? Blockette.dataFormat? = some format ∧
        format.lengthInBytes? = some length := by
  simp only [announcedLength, bind, Except.bind]
  cases isDecoded : Header.decode buffer with
  | error error => simp
  | ok header =>
      dsimp only
      cases isFound : (header.blockettes buffer).findSome? Blockette.dataFormat? with
      | none => simp [isFound]
      | some format =>
          dsimp only
          cases isLength : format.lengthInBytes? <;> simp [isFound, isLength]

/-- What a buffer announces does not depend on the bytes that follow. -/
theorem announcedLength_append {length : Nat}
    (isLength : Record.announcedLength buffer = .ok length) (more : List UInt8) :
    Record.announcedLength (buffer ++ more) = .ok length := by
  obtain ⟨header, format, isDecoded, isFound, isSupported⟩ := announcedLength_eq_ok_iff.mp isLength
  refine announcedLength_eq_ok_iff.mpr
    ⟨header, format, Header.decode_append isDecoded more, ?_, isSupported⟩
  exact (header.blockettes_append buffer more).findSome?_eq_some isFound

end Record

end Waveform
