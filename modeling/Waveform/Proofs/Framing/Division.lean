import Waveform.Framing.Framer
import Waveform.Proofs.Record.Extension

/-!
# Division of a stream into records

What the records of a stream are, said of its bytes alone: a stream divides into stretches that are
skipped and stretches that are records, one after the other. Every stream divides in exactly one
way, whatever pieces it is delivered in.
-/

namespace Waveform

/-- A stretch of a stream. -/
inductive Stretch where
  | skipped (bytes : List UInt8)
  | record (bytes : List UInt8)
deriving DecidableEq

namespace Stretch

def bytes : Stretch → List UInt8
  | .skipped bytes => bytes
  | .record bytes => bytes

/-- The blocks of the records among some stretches, if some bytes were skipped just before. Each
block counts the bytes skipped since the record before it. -/
def blocks (stream : Nat) : (before : Nat) → List Stretch → List StreamBlock
  | _, [] => []
  | before, .skipped bytes :: later => blocks stream (before + bytes.length) later
  | before, .record bytes :: later => ⟨stream, before, .record bytes⟩ :: blocks stream 0 later

/-- How many bytes are skipped behind the last record, if some were skipped just before. -/
def skippedAtEnd : (before : Nat) → List Stretch → Nat
  | before, [] => before
  | before, .skipped bytes :: later => skippedAtEnd (before + bytes.length) later
  | _, .record _ :: later => skippedAtEnd 0 later

/-- Every byte is in a record, or it is counted as skipped before one or behind the last one. -/
theorem total_blocks (stream before : Nat) (stretches : List Stretch) :
    totalOf (fun block => block.bytes.length) (blocks stream before stretches) +
        totalOf StreamBlock.skipped (blocks stream before stretches) +
        skippedAtEnd before stretches =
      before + (stretches.flatMap Stretch.bytes).length := by
  induction stretches generalizing before with
  | nil => simp [blocks, skippedAtEnd]
  | cons stretch later ih =>
      cases stretch with
      | skipped bytes =>
          simp only [blocks, skippedAtEnd, List.flatMap_cons, List.length_append, Stretch.bytes]
          rw [ih (before + bytes.length), Nat.add_assoc]
      | record bytes =>
          simp only [blocks, skippedAtEnd, List.flatMap_cons, List.length_append, Stretch.bytes,
            totalOf_cons]
          have own : (StreamBlock.bytes ⟨stream, before, .record bytes⟩).length =
              bytes.length := rfl
          have rest := ih 0
          omega

end Stretch

open Framer (chunkLength)

/-- Whether the bytes of a stream, from some position on, divide into stretches. -/
inductive Division : List UInt8 → List Stretch → Prop where
  /-- A chunk that is not full is skipped and is the end. -/
  | short {bytes : List UInt8} (isShort : bytes.length < chunkLength) :
      Division bytes [.skipped bytes]
  /-- A chunk that begins no record is skipped. -/
  | noRecord {bytes : List UInt8} {error : RecordError} {later : List Stretch}
      (isFull : chunkLength ≤ bytes.length)
      (isError : Record.announcedLength (bytes.take chunkLength) = .error error)
      (rest : Division (bytes.drop chunkLength) later) :
      Division bytes (.skipped (bytes.take chunkLength) :: later)
  /-- A chunk that announces a record begins one if the stream holds as many bytes. -/
  | record {bytes : List UInt8} {length : Nat} {later : List Stretch}
      (isFull : chunkLength ≤ bytes.length)
      (isLength : Record.announcedLength (bytes.take chunkLength) = .ok length)
      (bounded : length ≤ 16384) (isWhole : length ≤ bytes.length)
      (rest : Division (bytes.drop length) later) :
      Division bytes (.record (bytes.take length) :: later)
  /-- A record that is cut off is skipped and is the end. -/
  | cutOff {bytes : List UInt8} {length : Nat} (isFull : chunkLength ≤ bytes.length)
      (isLength : Record.announcedLength (bytes.take chunkLength) = .ok length)
      (isCutOff : bytes.length < length) : Division bytes [.skipped bytes]

/-- A record is at least as long as the chunk it begins with, and not longer than 16384 bytes. -/
theorem Record.announcedLength_bounds {buffer : List UInt8} {length : Nat}
    (isLength : Record.announcedLength buffer = .ok length) :
    chunkLength ≤ length ∧ length ≤ 16384 := by
  obtain ⟨_, format, _, _, isSupported⟩ := announcedLength_eq_ok_iff.mp isLength
  obtain ⟨⟨lower, upper⟩, isPower⟩ := DataFormat.lengthInBytes?_eq_some_iff.mp isSupported
  rw [isPower]
  exact ⟨Nat.pow_le_pow_right (by decide : 2 > 0) lower,
    Nat.pow_le_pow_right (by decide : 2 > 0) upper⟩

namespace Division

variable {bytes : List UInt8} {stretches others : List Stretch}

/-- A full chunk that begins no record is skipped, whatever follows it. -/
theorem noRecord_append {chunk : List UInt8} {error : RecordError}
    (isFull : chunk.length = chunkLength)
    (isError : Record.announcedLength chunk = .error error) (rest : Division bytes stretches) :
    Division (chunk ++ bytes) (.skipped chunk :: stretches) := by
  have isTaken : (chunk ++ bytes).take chunkLength = chunk := List.take_left' isFull
  have isDropped : (chunk ++ bytes).drop chunkLength = bytes := List.drop_left' isFull
  have holds : chunkLength ≤ (chunk ++ bytes).length := by
    rw [List.length_append, isFull]
    exact Nat.le_add_right _ _
  have division := noRecord holds (isTaken.symm ▸ isError) (isDropped.symm ▸ rest)
  rwa [isTaken] at division

/-- A whole record is read, whatever follows it. -/
theorem record_append {record : List UInt8}
    (isLength : Record.announcedLength (record.take chunkLength) = .ok record.length)
    (rest : Division bytes stretches) :
    Division (record ++ bytes) (.record record :: stretches) := by
  have bounds := Record.announcedLength_bounds isLength
  have isTaken : (record ++ bytes).take chunkLength = record.take chunkLength :=
    List.take_append_of_le_length bounds.1
  have isWhole : record.length ≤ (record ++ bytes).length := by
    rw [List.length_append]
    exact Nat.le_add_right _ _
  have isDropped : (record ++ bytes).drop record.length = bytes := List.drop_left' rfl
  have division := Division.record (Nat.le_trans bounds.1 isWhole) (isTaken.symm ▸ isLength)
    bounds.2 isWhole (isDropped.symm ▸ rest)
  rwa [List.take_left' rfl] at division

/-- The stretches tile the stream: they follow each other without a gap or an overlap. -/
theorem flatMap_bytes (division : Division bytes stretches) :
    stretches.flatMap Stretch.bytes = bytes := by
  induction division with
  | short isShort => simp [Stretch.bytes]
  | noRecord _ _ _ ih =>
      rw [List.flatMap_cons, ih]
      exact List.take_append_drop _ _
  | record _ _ _ _ _ ih =>
      rw [List.flatMap_cons, ih]
      exact List.take_append_drop _ _
  | cutOff => simp [Stretch.bytes]

/-- A stream divides in one way only. -/
theorem unique (division : Division bytes stretches) (other : Division bytes others) :
    stretches = others := by
  induction division generalizing others with
  | short isShort =>
      cases other with
      | short => rfl
      | noRecord isFull | record isFull | cutOff isFull => omega
  | noRecord isFull isError rest ih =>
      cases other with
      | short isShort => omega
      | noRecord _ _ othersRest => rw [ih othersRest]
      | record _ isLength | cutOff _ isLength =>
          rw [isError] at isLength
          cases isLength
  | record isFull isLength bounded isWhole rest ih =>
      cases other with
      | short isShort => omega
      | noRecord _ isError =>
          rw [isLength] at isError
          cases isError
      | record _ sameLength _ _ othersRest =>
          rw [isLength] at sameLength
          cases sameLength
          rw [ih othersRest]
      | cutOff _ sameLength isCutOff =>
          rw [isLength] at sameLength
          cases sameLength
          omega
  | cutOff isFull isLength isCutOff =>
      cases other with
      | short isShort => rfl
      | noRecord _ isError =>
          rw [isLength] at isError
          cases isError
      | record _ sameLength _ isWhole =>
          rw [isLength] at sameLength
          cases sameLength
          omega
      | cutOff => rfl

/-- Every stream divides. -/
theorem exists_division (bytes : List UInt8) : ∃ stretches, Division bytes stretches := by
  induction size : bytes.length using Nat.strongRecOn generalizing bytes with
  | ind size ih =>
      subst size
      by_cases isShort : bytes.length < chunkLength
      · exact ⟨_, .short isShort⟩
      have isFull : chunkLength ≤ bytes.length := Nat.le_of_not_lt isShort
      have positive : 0 < chunkLength := by decide
      cases announced : Record.announcedLength (bytes.take chunkLength) with
      | error error =>
          obtain ⟨later, rest⟩ := ih (bytes.drop chunkLength).length
            (by rw [List.length_drop]; omega) (bytes.drop chunkLength) rfl
          exact ⟨_, .noRecord isFull announced rest⟩
      | ok length =>
          have bounds := Record.announcedLength_bounds announced
          by_cases isCutOff : bytes.length < length
          · exact ⟨_, .cutOff isFull announced isCutOff⟩
          obtain ⟨later, rest⟩ := ih (bytes.drop length).length
            (by rw [List.length_drop]; omega) (bytes.drop length) rfl
          exact ⟨_, .record isFull announced bounds.2 (Nat.le_of_not_lt isCutOff) rest⟩

end Division

end Waveform
