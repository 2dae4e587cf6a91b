import Waveform.Proofs.Framing.Reading
import Waveform.Proofs.Record.Extension

/-!
# Records as they are cut from a stream

A framer knows a record from its first chunk alone. Those who decode the whole record find there
what the framer found: the same header, the same length and the same storage format. Only the start
time, at which the framer does not look, can still make the record one that cannot be decoded.
-/

namespace Waveform

open Framer (chunkLength)

/-- Whether some bytes are what their first chunk announces. -/
structure Record.AsAnnounced (bytes : List UInt8) : Prop where
  announced : Record.announcedLength bytes = .ok bytes.length
  size : ∃ exponent, 8 ≤ exponent ∧ exponent ≤ 14 ∧ bytes.length = 2 ^ exponent
  /-- The record decodes to the header and the storage format of the first chunk, unless the start
  time in that header is not a time. -/
  decodes : ∃ header format,
    Header.decode (bytes.take chunkLength) = .ok header ∧
    (header.blockettes (bytes.take chunkLength)).findSome? Blockette.dataFormat? = some format ∧
    match header.start.micros? with
    | none => Record.decode bytes = .error .invalidStart
    | some start => ∃ record, Record.decode bytes = .ok record ∧ record.header = header ∧
        record.start = start ∧ record.dataFormat? = some format

/-- A whole record is what its first chunk announces. -/
theorem Record.asAnnounced_of_chunk {chunk rest : List UInt8}
    (isChunk : chunk.length = chunkLength)
    (isLength : Record.announcedLength chunk = .ok (chunk ++ rest).length) :
    Record.AsAnnounced (chunk ++ rest) := by
  obtain ⟨header, format, isDecoded, isFound, isSupported⟩ := announcedLength_eq_ok_iff.mp isLength
  obtain ⟨bounds, isPower⟩ := DataFormat.lengthInBytes?_eq_some_iff.mp isSupported
  have isTaken : (chunk ++ rest).take chunkLength = chunk := List.take_left' isChunk
  constructor
  case announced => exact announcedLength_append isLength rest
  case size => exact ⟨format.exponent, bounds.1, bounds.2, isPower⟩
  case decodes =>
    rw [isTaken]
    refine ⟨header, format, isDecoded, isFound, ?_⟩
    have sameHeader := Header.decode_append isDecoded rest
    have sameFormat := (header.blockettes_append chunk rest).findSome?_eq_some isFound
    simp only [Record.decode, sameHeader, bind, Except.bind]
    cases header.start.micros? with
    | none => rfl
    | some start => exact ⟨_, rfl, rfl, rfl, sameFormat⟩

/-- Whether a block carries a record that is what its first chunk announces. -/
def StreamBlock.HoldsRecord (block : StreamBlock) : Prop :=
  ∃ bytes, block.content = .record bytes ∧ Record.AsAnnounced bytes

namespace Framer

variable {framer later : Framer} {block : StreamBlock}

theorem holdsRecord_of_look (isRecord : framer.look = .record block later) :
    block.HoldsRecord := by
  unfold look at isRecord
  split at isRecord
  next => cases isRecord
  next chunk rest isChunk =>
    dsimp only at isRecord
    split at isRecord
    next => cases isRecord
    next isFull =>
      have chunkSize : chunk.length = chunkLength :=
        Nat.le_antisymm (Source.length_of_read_filled isChunk) (Nat.le_of_not_lt isFull)
      split at isRecord
      next => cases isRecord
      next length isLength =>
        unfold finishRecord at isRecord
        split at isRecord
        next => cases isRecord
        next bytes final isRest =>
          dsimp only at isRecord
          split at isRecord
          next => cases isRecord
          next isWhole =>
            cases isRecord
            have restSize : bytes.length = length - chunkLength :=
              Nat.le_antisymm (Source.length_of_read_filled isRest) (Nat.le_of_not_lt isWhole)
            have bounds := Record.announcedLength_bounds isLength
            have size : (chunk ++ bytes).length = length := by
              rw [List.length_append, chunkSize, restSize]
              omega
            exact ⟨chunk ++ bytes, rfl, Record.asAnnounced_of_chunk chunkSize (size ▸ isLength)⟩

theorem holdsRecord_of_next (isRecord : framer.next = .record block later) :
    block.HoldsRecord := by
  fun_induction next framer with
  | case1 framer between isSkipped ih => exact ih isRecord
  | case2 framer found between isLook =>
      cases isRecord
      exact holdsRecord_of_look isLook
  | case3 | case4 => cases isRecord

theorem holdsRecord_of_mem_readAll (member : block ∈ framer.readAll.1) : block.HoldsRecord := by
  fun_induction readAll framer with
  | case1 framer between isSkipped ih => exact ih member
  | case2 framer found between isLook blocks ending final isRest ih =>
      rw [isRest] at ih
      cases member with
      | head => exact holdsRecord_of_look isLook
      | tail _ isLater => exact ih isLater
  | case3 | case4 => cases member

/-- The framer and those who decode its records agree on what a record is. A buffer that announces
a record announces the same one whatever bytes follow it, with the same header and with the same
blockettes first. So every record that a framer cuts from a stream, however its source behaves, is
what its first chunk announces. -/
theorem records_asAnnounced :
    (∀ (buffer more : List UInt8) (length : Nat),
      Record.announcedLength buffer = .ok length →
        Record.announcedLength (buffer ++ more) = .ok length ∧
        ∃ header, Header.decode buffer = .ok header ∧
          Header.decode (buffer ++ more) = .ok header ∧
          header.blockettes buffer <+: header.blockettes (buffer ++ more)) ∧
      (∀ (framer later : Framer) (block : StreamBlock),
        framer.next = .record block later → block.HoldsRecord) ∧
      ∀ (framer : Framer) (isLast : Bool), ∀ block ∈ (framer.run isLast).1,
        block.isEnd = false → block.HoldsRecord := by
  refine ⟨?_, ?_, ?_⟩
  · intro buffer more length isLength
    obtain ⟨header, _, isDecoded, _⟩ := Record.announcedLength_eq_ok_iff.mp isLength
    exact ⟨Record.announcedLength_append isLength more, header, isDecoded,
      Header.decode_append isDecoded more, header.blockettes_append buffer more⟩
  · intro framer later block isRecord
    exact holdsRecord_of_next isRecord
  · intro framer isLast block member notEnd
    rcases List.mem_append.mp member with isRead | isSentinel
    · exact holdsRecord_of_mem_readAll isRead
    · obtain rfl := List.mem_singleton.mp isSentinel
      unfold StreamBlock.isEnd Ending.content at notEnd
      cases ending : framer.readAll.2.1 <;> simp [ending] at notEnd

/-- The beginning of a record whose second blockette is cut off. -/
def clockedStart : List UInt8 :=
  [48, 48, 48, 48, 48, 49, 68, 32, 65, 78, 77, 79, 32, 48, 48, 66, 72, 90, 73, 85,
    7, 220, 0, 61, 0, 0, 0, 0, 0, 0, 0, 0, 0, 20, 0, 1, 0, 0, 0, 2, 0, 0, 0, 0, 0, 64, 0, 48,
    3, 232, 0, 56, 1, 1, 8, 0, 3, 233, 0, 0]

/-- A buffer whose chain of blockettes is cut off announces the record that it begins, and so does
the buffer that goes on, where the chain is longer; and what is cut from a source in pieces is a
record. -/
theorem records_asAnnounced_clocked :
    Record.announcedLength clockedStart = .ok 256 ∧
      Record.announcedLength (clockedStart ++ [90, 0, 0, 7]) = .ok 256 ∧
      (∃ header, Header.decode clockedStart = .ok header ∧
        header.blockettes clockedStart <+:
          header.blockettes (clockedStart ++ [90, 0, 0, 7]) ∧
        (header.blockettes clockedStart).length = 1 ∧
        (header.blockettes (clockedStart ++ [90, 0, 0, 7])).length = 2) ∧
      (∃ later, (ofSource interruptedSource 7 true).next =
        .record ⟨7, 256, .record leastRecord⟩ later) ∧
      Record.AsAnnounced leastRecord := by
  obtain ⟨stable, cut, _⟩ := records_asAnnounced
  have isLength : Record.announcedLength clockedStart = .ok 256 := by rfl
  obtain ⟨goesOn, header, isDecoded, _, isPrefix⟩ := stable clockedStart [90, 0, 0, 7] 256 isLength
  have isHeader : Header.read .bigEndian clockedStart = header := Except.ok.inj isDecoded
  obtain ⟨final, yields, _⟩ :=
    exists_yields (ofSource interruptedSource 7 true) division_interruptedSource
      unfailing_interruptedSource rfl
  refine ⟨isLength, goesOn, ⟨header, isDecoded, isPrefix, ?_, ?_⟩, ?_⟩
  · rw [← isHeader]
    rfl
  · rw [← isHeader]
    rfl
  · cases yields with
    | record isRecord rest =>
        obtain ⟨bytes, isBytes, asAnnounced⟩ := cut _ _ _ isRecord
        have sameBytes : leastRecord = bytes := BlockContent.record.inj isBytes
        rw [List.length_replicate] at isRecord
        exact ⟨⟨_, isRecord⟩, sameBytes ▸ asAnnounced⟩

end Framer

end Waveform
