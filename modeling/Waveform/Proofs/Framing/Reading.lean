import Waveform.Proofs.Framing.Division

/-!
# Reading the records of a stream

Reading one record after the other from a source that does not fail yields the records that the
source's bytes divide into. The pieces in which the source delivers its bytes, and interruptions
between them, leave no trace in what is read or counted.
-/

namespace Waveform

namespace Source

/-- Whether a source never fails, though it may be interrupted. -/
def Unfailing (source : Source) : Prop := ∀ message, Delivery.failed message ∉ source

theorem Unfailing.tail {source : Source} {first : Delivery}
    (unfailing : Unfailing (first :: source)) : source.Unfailing :=
  fun message member => unfailing message (List.mem_cons_of_mem first member)

/-- A source that never fails delivers the bytes that were wanted, or all there are. -/
theorem read_of_unfailing {source : Source} (unfailing : source.Unfailing) (wanted : Nat) :
    ∃ rest, read wanted source = .filled ((contents source).take wanted) rest ∧
      contents rest = (contents source).drop wanted ∧ Unfailing rest := by
  fun_induction read wanted source with
  | case1 source => exact ⟨source, by simp, by simp, unfailing⟩
  | case2 wanted => exact ⟨[], by simp, by simp, unfailing⟩
  | case3 wanted later ih =>
      obtain ⟨rest, isRead, isRest, restUnfailing⟩ := ih unfailing.tail
      exact ⟨rest, isRead, isRest, restUnfailing⟩
  | case4 wanted message later => exact absurd List.mem_cons_self (unfailing message)
  | case5 wanted piece later long =>
      refine ⟨.bytes (piece.drop (wanted + 1)) :: later, ?_, ?_, ?_⟩
      · rw [contents_bytes, List.take_append_of_le_length (Nat.le_of_lt long)]
      · rw [contents_bytes, contents_bytes, List.drop_append_of_le_length (Nat.le_of_lt long)]
      · intro message member
        cases member with
        | tail _ isLater => exact unfailing message (List.mem_cons_of_mem _ isLater)
  | case6 wanted piece later short more final isMore ih =>
      obtain ⟨rest, isRead, isRest, restUnfailing⟩ := ih unfailing.tail
      rw [isMore] at isRead
      cases isRead
      have within : piece.length ≤ wanted + 1 := Nat.le_of_not_lt short
      refine ⟨final, ?_, ?_, restUnfailing⟩
      · rw [contents_bytes, List.take_append, List.take_of_length_le within]
      · rw [contents_bytes, List.drop_append, List.drop_of_length_le within, isRest,
          List.nil_append]
  | case7 wanted piece later short message final isFailed ih =>
      obtain ⟨rest, isRead, _⟩ := ih unfailing.tail
      rw [isFailed] at isRead
      cases isRead

end Source

namespace Framer

/-- Whether a framer has come from another one by reading some bytes, and counts so many bytes as
skipped since the last record and so many records. -/
structure After (framer : Framer) (bytes : List UInt8) (skipped records : Nat) (later : Framer) :
    Prop where
  stream : later.stream = framer.stream
  offset : later.offset = framer.offset + bytes.length
  hasher : later.hasher = framer.hasher.map fun hasher => hasher.absorb bytes
  skipped : later.skipped = skipped
  records : later.records = records
  remaining : bytes ++ later.remaining = framer.remaining
  unfailing : later.source.Unfailing

variable {framer between later final : Framer} {bytes more : List UInt8}
  {skipped records length : Nat} {blocks : List StreamBlock}

theorem After.trans {skippedFirst recordsFirst : Nat}
    (first : framer.After bytes skippedFirst recordsFirst between)
    (second : between.After more skipped records later) :
    framer.After (bytes ++ more) skipped records later where
  stream := second.stream.trans first.stream
  offset := by rw [second.offset, first.offset, List.length_append, Nat.add_assoc]
  hasher := by
    rw [second.hasher, first.hasher, Option.map_map]
    simp only [Md5.Hasher.absorb_append, Function.comp_def]
  skipped := second.skipped
  records := second.records
  remaining := by rw [List.append_assoc, second.remaining, first.remaining]
  unfailing := second.unfailing

theorem After.remaining_eq_drop
    (after : framer.After (framer.remaining.take length) skipped records later) :
    later.remaining = framer.remaining.drop length :=
  List.append_cancel_left (after.remaining.trans (List.take_append_drop _ _).symm)

/-- Reading from a source that does not fail gives the bytes that are next. -/
theorem exists_advance (unfailing : framer.source.Unfailing) (wanted : Nat) :
    ∃ rest, Source.read wanted framer.source = .filled (framer.remaining.take wanted) rest ∧
      framer.After (framer.remaining.take wanted) framer.skipped framer.records
        (framer.advance (framer.remaining.take wanted) rest) := by
  obtain ⟨rest, isRead, isRest, restUnfailing⟩ := Source.read_of_unfailing unfailing wanted
  refine ⟨rest, isRead, rfl, rfl, rfl, rfl, rfl, ?_, restUnfailing⟩
  rw [remaining_advance, isRest]
  exact List.take_append_drop wanted framer.remaining

theorem After.skip (after : framer.After bytes skipped records later) (count : Nat) :
    framer.After bytes (skipped + count) records (later.skip count) :=
  ⟨after.stream, after.offset, after.hasher, congrArg (· + count) after.skipped, after.records,
    after.remaining, after.unfailing⟩

theorem After.handOn (after : framer.After bytes skipped records later) :
    framer.After bytes 0 (records + 1) later.handOn :=
  ⟨after.stream, after.offset, after.hasher, rfl, congrArg (· + 1) after.records,
    after.remaining, after.unfailing⟩

/-! ## Looking at one chunk -/

/-- A chunk that is not full is skipped and is the end. -/
theorem look_of_short (unfailing : framer.source.Unfailing)
    (isShort : framer.remaining.length < chunkLength) :
    ∃ final, framer.look = .ended final ∧
      framer.After framer.remaining (framer.skipped + framer.remaining.length) framer.records
        final := by
  obtain ⟨rest, isRead, after⟩ := exists_advance unfailing chunkLength
  rw [List.take_of_length_le (Nat.le_of_lt isShort)] at isRead after
  refine ⟨_, ?_, after.skip framer.remaining.length⟩
  rw [look, isRead]
  exact if_pos isShort

/-- A chunk that begins no record is skipped. -/
theorem look_of_noRecord (unfailing : framer.source.Unfailing)
    (isFull : chunkLength ≤ framer.remaining.length) {error : RecordError}
    (isError : Record.announcedLength (framer.remaining.take chunkLength) = .error error) :
    ∃ later, framer.look = .skipped later ∧
      framer.After (framer.remaining.take chunkLength)
        (framer.skipped + (framer.remaining.take chunkLength).length) framer.records later := by
  obtain ⟨rest, isRead, after⟩ := exists_advance unfailing chunkLength
  have notShort : ¬(framer.remaining.take chunkLength).length < chunkLength := by
    rw [List.length_take, Nat.min_eq_left isFull]
    exact Nat.lt_irrefl _
  refine ⟨_, ?_, after.skip _⟩
  rw [look, isRead]
  dsimp only
  rw [if_neg notShort, isError]

/-- A chunk that announces a record is followed by the rest of it, as far as there is any. -/
theorem look_of_announced (unfailing : framer.source.Unfailing)
    (isFull : chunkLength ≤ framer.remaining.length) {length : Nat}
    (isLength : Record.announcedLength (framer.remaining.take chunkLength) = .ok length) :
    ∃ later, framer.After (framer.remaining.take length) framer.skipped framer.records later ∧
      framer.look =
        if framer.remaining.length < length then
          .ended (later.skip (framer.remaining.take length).length)
        else .record (later.recordBlock (framer.remaining.take length)) later.handOn := by
  have bounds := Record.announcedLength_bounds isLength
  have chunkSize : (framer.remaining.take chunkLength).length = chunkLength := by
    rw [List.length_take, Nat.min_eq_left isFull]
  obtain ⟨rest, isRead, first⟩ := exists_advance unfailing chunkLength
  obtain ⟨final, isRest, second⟩ := exists_advance first.unfailing (length - chunkLength)
  rw [first.remaining_eq_drop] at isRest second
  have whole : framer.remaining.take chunkLength ++
      (framer.remaining.drop chunkLength).take (length - chunkLength) =
        framer.remaining.take length := by
    rw [← List.take_add, Nat.add_sub_cancel' bounds.1]
  have after := first.trans second
  rw [whole] at after
  refine ⟨_, after, ?_⟩
  rw [look, isRead]
  dsimp only
  rw [chunkSize, if_neg (Nat.lt_irrefl _), isLength]
  dsimp only
  rw [finishRecord, isRest]
  dsimp only
  rw [whole, ← List.length_append, whole, List.length_take, List.length_drop]
  refine ite_congr (propext ?_) (fun _ => rfl) (fun _ => rfl)
  omega

/-! ## Reading to the end -/

/-- Whether reading one record after the other, up to the end of the stream, yields some blocks. -/
inductive Yields : Framer → List StreamBlock → Framer → Prop where
  | ended {framer final : Framer} (isEnd : framer.next = .ended final) : Yields framer [] final
  | record {framer later final : Framer} {block : StreamBlock} {blocks : List StreamBlock}
      (isRecord : framer.next = .record block later) (rest : Yields later blocks final) :
      Yields framer (block :: blocks) final

/-- The next record is the one that a look finds, or the one behind a chunk that is skipped. -/
theorem next_eq (framer : Framer) :
    framer.next =
      match framer.look with
      | .skipped later => later.next
      | .record block later => .record block later
      | .ended final => .ended final
      | .failed message final => .failed message final := by
  rw [next]
  split
  next later isLook => rw [isLook]
  next block later isLook => rw [isLook]
  next final isLook => rw [isLook]
  next message final isLook => rw [isLook]

theorem next_of_skipped (isSkipped : framer.look = .skipped later) :
    framer.next = later.next := by
  rw [next_eq, isSkipped]

theorem next_of_record {block : StreamBlock} (isRecord : framer.look = .record block later) :
    framer.next = .record block later := by
  rw [next_eq, isRecord]

theorem next_of_ended (isEnded : framer.look = .ended final) : framer.next = .ended final := by
  rw [next_eq, isEnded]

theorem Yields.of_skipped (isSkipped : framer.look = .skipped later)
    (yields : Yields later blocks final) : Yields framer blocks final := by
  have sameNext := next_of_skipped isSkipped
  cases yields with
  | ended isEnd => exact .ended (sameNext.trans isEnd)
  | record isRecord rest => exact .record (sameNext.trans isRecord) rest

/-- Reading all records is reading the next one and then all records behind it. -/
theorem readAll_eq (framer : Framer) :
    framer.readAll =
      match framer.next with
      | .record block later => (block :: later.readAll.1, later.readAll.2)
      | .ended final => ([], .ended, final)
      | .failed message final => ([], .failed message, final) := by
  fun_induction next framer with
  | case1 framer later isSkipped ih => rw [readAll, isSkipped, ← ih]
  | case2 framer block later isRecord => rw [readAll, isRecord]
  | case3 framer final isEnded => rw [readAll, isEnded]
  | case4 framer message final isFailed => rw [readAll, isFailed]

theorem Yields.readAll_eq (yields : Yields framer blocks final) :
    framer.readAll = (blocks, .ended, final) := by
  induction yields with
  | ended isEnd => rw [Framer.readAll_eq, isEnd]
  | record isRecord rest ih =>
      rw [Framer.readAll_eq, isRecord]
      dsimp only
      rw [ih]

/-- Reading yields what the bytes divide into, and reads all of them. -/
theorem exists_yields (framer : Framer) {stretches : List Stretch}
    (division : Division bytes stretches) (unfailing : framer.source.Unfailing)
    (holds : framer.remaining = bytes) :
    ∃ final, Yields framer (Stretch.blocks framer.stream framer.skipped stretches) final ∧
      framer.After bytes (Stretch.skippedAtEnd framer.skipped stretches)
        ((Stretch.blocks framer.stream framer.skipped stretches).length + framer.records)
        final := by
  -- Each step of the division is one look; what was skipped before it is carried by the framer.
  induction division generalizing framer with
  | short isShort =>
      subst holds
      obtain ⟨final, isEnded, after⟩ := look_of_short unfailing isShort
      rw [← Nat.zero_add framer.records] at after
      exact ⟨final, .ended (next_of_ended isEnded), after⟩
  | noRecord isFull isError rest ih =>
      subst holds
      obtain ⟨later, isSkipped, first⟩ := look_of_noRecord unfailing isFull isError
      obtain ⟨final, yields, second⟩ := ih later first.unfailing first.remaining_eq_drop
      rw [first.stream, first.skipped] at yields second
      rw [first.records] at second
      have after := first.trans second
      rw [List.take_append_drop] at after
      exact ⟨final, yields.of_skipped isSkipped, after⟩
  | record isFull isLength bounded isWhole rest ih =>
      subst holds
      obtain ⟨later, first, isLook⟩ := look_of_announced unfailing isFull isLength
      rw [if_neg (Nat.not_lt_of_le isWhole)] at isLook
      obtain ⟨final, yields, second⟩ :=
        ih later.handOn first.handOn.unfailing first.handOn.remaining_eq_drop
      rw [first.handOn.stream, first.handOn.skipped] at yields second
      rw [first.handOn.records] at second
      have after := first.handOn.trans second
      rw [List.take_append_drop, ← Nat.succ_add_eq_add_succ] at after
      have isRecord := next_of_record isLook
      rw [recordBlock, first.stream, first.skipped] at isRecord
      exact ⟨final, .record isRecord yields, after⟩
  | cutOff isFull isLength isCutOff =>
      subst holds
      obtain ⟨later, after, isLook⟩ := look_of_announced unfailing isFull isLength
      rw [if_pos isCutOff] at isLook
      rw [List.take_of_length_le (Nat.le_of_lt isCutOff)] at isLook after
      rw [← Nat.zero_add framer.records] at after
      exact ⟨_, .ended (next_of_ended isLook), after.skip framer.remaining.length⟩

/-- What a framer has counted once it has read a stream that divides into some stretches and has
yielded the blocks of their records. -/
structure Counts (bytes : List UInt8) (stretches : List Stretch) (blocks : List StreamBlock)
    (wantsDigest : Bool) (final : Framer) : Prop where
  offset : final.offset = bytes.length
  total : totalOf (fun block => block.bytes.length) blocks +
    (skippedBefore blocks + final.skipped) = bytes.length
  skipped : final.skipped = Stretch.skippedAtEnd 0 stretches
  records : final.records = blocks.length
  digest : (final.hasher.map fun hasher => Md5.hexText hasher.digest) =
    if wantsDigest then some (Md5.text bytes) else none

theorem After.counts {source : Source} {stream : Nat} {wantsDigest : Bool}
    {stretches : List Stretch} (isTiled : stretches.flatMap Stretch.bytes = bytes)
    (after : (ofSource source stream wantsDigest).After bytes (Stretch.skippedAtEnd 0 stretches)
      (Stretch.blocks stream 0 stretches).length final) :
    Counts bytes stretches (Stretch.blocks stream 0 stretches) wantsDigest final where
  offset := after.offset.trans (Nat.zero_add _)
  total := by
    rw [after.skipped, skippedBefore, ← Nat.add_assoc, Stretch.total_blocks, isTiled,
      Nat.zero_add]
  skipped := after.skipped
  records := after.records
  digest := by
    rw [after.hasher]
    cases wantsDigest <;> rfl

/-- Every stream divides into stretches in exactly one way, and whatever source delivers it without
a failure, reading one record after the other yields the records among these stretches, each with
the number of bytes skipped since the record before, and then the end, where all bytes of the
stream are counted. -/
theorem reading_divides (bytes : List UInt8) :
    ∃ stretches, Division bytes stretches ∧ stretches.flatMap Stretch.bytes = bytes ∧
      (∀ others, Division bytes others → others = stretches) ∧
      ∀ (source : Source) (stream : Nat) (wantsDigest : Bool), source.Unfailing →
        Source.contents source = bytes →
          ∃ final,
            Yields (ofSource source stream wantsDigest) (Stretch.blocks stream 0 stretches) final ∧
            (ofSource source stream wantsDigest).readAll =
              (Stretch.blocks stream 0 stretches, .ended, final) ∧
            Counts bytes stretches (Stretch.blocks stream 0 stretches) wantsDigest final := by
  obtain ⟨stretches, division⟩ := Division.exists_division bytes
  refine ⟨stretches, division, division.flatMap_bytes, fun _ other => other.unique division, ?_⟩
  intro source stream wantsDigest unfailing holds
  obtain ⟨final, yields, after⟩ :=
    exists_yields (ofSource source stream wantsDigest) division unfailing holds
  exact ⟨final, yields, yields.readAll_eq, after.counts division.flatMap_bytes⟩

/-- A record of 256 bytes without samples. -/
def leastRecord : List UInt8 :=
  [48, 48, 48, 48, 48, 49, 68, 32, 65, 78, 77, 79, 32, 48, 48, 66, 72, 90, 73, 85,
    7, 220, 0, 61, 0, 0, 0, 0, 0, 0, 0, 0, 0, 20, 0, 1, 0, 0, 0, 1, 0, 0, 0, 0, 0, 64, 0, 48,
    3, 232, 0, 0, 1, 1, 8, 0] ++ List.replicate 200 0

/-- That record behind a chunk of zeros and in front of three bytes more. The source is interrupted
twice, and its pieces end in the middle of chunks. -/
def interruptedSource : Source :=
  [.bytes (List.replicate 100 0), .interrupted,
    .bytes (List.replicate 156 0 ++ leastRecord.take 20), .interrupted,
    .bytes (leastRecord.drop 20 ++ [1, 2]), .bytes [3]]

theorem unfailing_interruptedSource : interruptedSource.Unfailing := by
  intro message member
  simp only [interruptedSource, List.mem_cons, List.not_mem_nil, reduceCtorEq, or_self] at member

set_option maxRecDepth 4000 in
theorem division_interruptedSource :
    Division (Source.contents interruptedSource)
      [.skipped (List.replicate 256 0), .record leastRecord, .skipped [1, 2, 3]] := by
  have contents : Source.contents interruptedSource =
      List.replicate 256 0 ++ (leastRecord ++ [1, 2, 3]) := by decide +kernel
  have isZeros : (List.replicate 256 0 : List UInt8).length = chunkLength := List.length_replicate
  have isLeast : leastRecord.length = chunkLength := by decide +kernel
  have isError : Record.announcedLength (List.replicate 256 0) = .error (.indicator 0) := by rfl
  have isLength : Record.announcedLength leastRecord = .ok chunkLength := by rfl
  rw [contents]
  apply Division.noRecord_append isZeros isError
  apply Division.record_append
  · rw [← isLeast, List.take_length, isLeast]
    exact isLength
  · exact .short (by decide)

theorem reading_divides_interrupted :
    interruptedSource.Unfailing ∧
      ∃ final, (ofSource interruptedSource 7 true).readAll =
          ([⟨7, 256, .record leastRecord⟩], .ended, final) ∧
        final.offset = 515 ∧ final.skipped = 3 ∧ final.records = 1 := by
  have unfailing := unfailing_interruptedSource
  obtain ⟨stretches, division, isTiled, unique, reads⟩ :=
    reading_divides (Source.contents interruptedSource)
  have isStretches := unique _ division_interruptedSource
  subst isStretches
  obtain ⟨final, yields, isRead, counts⟩ := reads interruptedSource 7 true unfailing rfl
  refine ⟨unfailing, final, ?_, ?_, counts.skipped, counts.records⟩
  · simpa only [Stretch.blocks, List.length_replicate, Nat.zero_add] using isRead
  · rw [counts.offset]
    decide +kernel

end Framer

end Waveform
