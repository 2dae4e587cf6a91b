import Waveform.Proofs.Framing.Reading

/-!
# Reading a stream that fails

A source that fails has delivered some bytes by then. The records among these are read as if the
stream ended there; what comes behind the last of them is lost with the failure, which the block at
the end of the stream tells instead.
-/

namespace Waveform

namespace Source

/-- The bytes that a source delivers before it fails for the first time. -/
def delivered : Source → List UInt8
  | [] => []
  | .bytes piece :: rest => piece ++ delivered rest
  | .interrupted :: rest => delivered rest
  | .failed _ :: _ => []

/-- The message of the first failure of a source. -/
def failure? : Source → Option String
  | [] => none
  | .bytes _ :: rest => failure? rest
  | .interrupted :: rest => failure? rest
  | .failed message :: _ => some message

theorem failure?_eq_none_iff {source : Source} : source.failure? = none ↔ source.Unfailing := by
  induction source with
  | nil => simp [failure?, Unfailing]
  | cons delivery rest ih =>
      cases delivery with
      | bytes | interrupted => simpa [failure?, Unfailing] using ih
      | failed message =>
          constructor
          · intro isNone
            cases isNone
          · intro unfailing
            exact absurd List.mem_cons_self (unfailing message)

theorem delivered_of_unfailing {source : Source} (unfailing : source.Unfailing) :
    source.delivered = source.contents := by
  induction source with
  | nil => rfl
  | cons delivery rest ih =>
      cases delivery with
      | bytes piece => rw [delivered, contents_bytes, ih unfailing.tail]
      | interrupted => exact ih unfailing.tail
      | failed message => exact absurd List.mem_cons_self (unfailing message)

variable {source : Source} {wanted : Nat}

/-- Bytes that come before the failure are read. -/
theorem read_of_delivered (enough : wanted ≤ source.delivered.length) :
    ∃ rest, read wanted source = .filled (source.delivered.take wanted) rest ∧
      delivered rest = source.delivered.drop wanted ∧ failure? rest = source.failure? := by
  fun_induction read wanted source with
  | case1 source => exact ⟨source, by simp, by simp, rfl⟩
  | case2 wanted => exact absurd enough (Nat.not_succ_le_zero wanted)
  | case3 wanted later ih => exact ih enough
  | case4 wanted message later => exact absurd enough (Nat.not_succ_le_zero wanted)
  | case5 wanted piece later long =>
      refine ⟨.bytes (piece.drop (wanted + 1)) :: later, ?_, ?_, rfl⟩
      · rw [delivered, List.take_append_of_le_length (Nat.le_of_lt long)]
      · rw [delivered, delivered, List.drop_append_of_le_length (Nat.le_of_lt long)]
  | case6 wanted piece later short more final isMore ih =>
      have within : piece.length ≤ wanted + 1 := Nat.le_of_not_lt short
      rw [delivered, List.length_append] at enough
      obtain ⟨rest, isRead, isRest, sameFailure⟩ := ih (by omega)
      rw [isMore] at isRead
      cases isRead
      refine ⟨final, ?_, ?_, sameFailure⟩
      · rw [delivered, List.take_append, List.take_of_length_le within]
      · rw [delivered, List.drop_append, List.drop_of_length_le within, isRest, List.nil_append]
  | case7 wanted piece later short message final isFailed ih =>
      rw [delivered, List.length_append] at enough
      obtain ⟨rest, isRead, _⟩ := ih (by omega)
      rw [isFailed] at isRead
      cases isRead

/-- Who wants more bytes than come before the failure gets the failure. -/
theorem read_of_failure {message : String} (fails : source.failure? = some message)
    (short : source.delivered.length < wanted) :
    ∃ rest, read wanted source = .failed message rest := by
  fun_induction read wanted source with
  | case1 source => exact absurd short (Nat.not_lt_zero _)
  | case2 wanted => cases fails
  | case3 wanted later ih => exact ih fails short
  | case4 wanted other later =>
      cases fails
      exact ⟨later, rfl⟩
  | case5 wanted piece later long =>
      rw [delivered, List.length_append] at short
      omega
  | case6 wanted piece later notLong more final isMore ih =>
      rw [delivered, List.length_append] at short
      obtain ⟨rest, isFailed⟩ := ih fails (by omega)
      rw [isMore] at isFailed
      cases isFailed
  | case7 wanted piece later notLong other final isFailed ih =>
      rw [delivered, List.length_append] at short
      obtain ⟨rest, isRead⟩ := ih fails (by omega)
      rw [isFailed] at isRead
      cases isRead
      exact ⟨final, rfl⟩

end Source

theorem Division.ne_nil {bytes : List UInt8} {stretches : List Stretch}
    (division : Division bytes stretches) : stretches ≠ [] := by
  cases division <;> exact List.cons_ne_nil _ _

open Framer (chunkLength)

namespace Stretch

/-- What is read of some stretches before the stream fails in the last one of them: all others, and
the first chunk of the last one if that is full. -/
def readBeforeFailure : List Stretch → List UInt8
  | [] => []
  | [last] => if last.bytes.length < chunkLength then [] else last.bytes.take chunkLength
  | stretch :: later => stretch.bytes ++ readBeforeFailure later

theorem readBeforeFailure_skipped (bytes : List UInt8) :
    readBeforeFailure [.skipped bytes] =
      if bytes.length < chunkLength then [] else bytes.take chunkLength := rfl

theorem readBeforeFailure_cons (stretch : Stretch) {later : List Stretch} (notLast : later ≠ []) :
    readBeforeFailure (stretch :: later) = stretch.bytes ++ readBeforeFailure later := by
  cases later with
  | nil => exact absurd rfl notLast
  | cons next later => rfl

end Stretch

namespace Framer

variable {framer later : Framer} {length : Nat}

theorem readAll_of_skipped (isSkipped : framer.look = .skipped later) :
    framer.readAll = later.readAll := by
  rw [readAll_eq, next_of_skipped isSkipped, ← readAll_eq]

theorem readAll_of_record {block : StreamBlock} (isRecord : framer.look = .record block later) :
    framer.readAll = (block :: later.readAll.1, later.readAll.2) := by
  rw [readAll_eq, next_of_record isRecord]

theorem readAll_of_failed {message : String} (isFailed : framer.look = .failed message later) :
    framer.readAll = ([], .failed message, later) := by
  rw [readAll_eq, next_eq, isFailed]

/-- Whether a framer has come from another one by reading some bytes, and counts so many bytes as
skipped since the last record. -/
structure Reads (framer : Framer) (bytes : List UInt8) (skipped : Nat) (later : Framer) : Prop where
  stream : later.stream = framer.stream
  offset : later.offset = framer.offset + bytes.length
  hasher : later.hasher = framer.hasher.map fun hasher => hasher.absorb bytes
  skipped : later.skipped = skipped

theorem Reads.trans {bytes more : List UInt8} {skippedFirst skipped : Nat} {between : Framer}
    (first : framer.Reads bytes skippedFirst between) (second : between.Reads more skipped later) :
    framer.Reads (bytes ++ more) skipped later where
  stream := second.stream.trans first.stream
  offset := by rw [second.offset, first.offset, List.length_append, Nat.add_assoc]
  hasher := by
    rw [second.hasher, first.hasher, Option.map_map]
    simp only [Md5.Hasher.absorb_append, Function.comp_def]
  skipped := second.skipped

theorem Reads.skip {bytes : List UInt8} {skipped : Nat} (reads : framer.Reads bytes skipped later)
    (count : Nat) : framer.Reads bytes (skipped + count) (later.skip count) :=
  ⟨reads.stream, reads.offset, reads.hasher, congrArg (· + count) reads.skipped⟩

theorem Reads.handOn {bytes : List UInt8} {skipped : Nat}
    (reads : framer.Reads bytes skipped later) : framer.Reads bytes 0 later.handOn :=
  ⟨reads.stream, reads.offset, reads.hasher, rfl⟩

/-- Whether a framer has come from another one by reading so many bytes, which its source delivered
before a failure that is still to come, and counts so many bytes as skipped since the last
record. -/
structure Proceeds (framer : Framer) (count skipped : Nat) (later : Framer) : Prop extends
    framer.Reads (framer.source.delivered.take count) skipped later where
  delivered : later.source.delivered = framer.source.delivered.drop count
  failure : later.source.failure? = framer.source.failure?

/-- Reading bytes that come before the failure. -/
theorem exists_proceeds (framer : Framer) {wanted : Nat}
    (enough : wanted ≤ framer.source.delivered.length) :
    ∃ rest, Source.read wanted framer.source =
        .filled (framer.source.delivered.take wanted) rest ∧
      framer.Proceeds wanted framer.skipped
        (framer.advance (framer.source.delivered.take wanted) rest) := by
  obtain ⟨rest, isRead, isRest, sameFailure⟩ := Source.read_of_delivered enough
  exact ⟨rest, isRead, ⟨rfl, rfl, rfl, rfl⟩, isRest, sameFailure⟩

theorem not_short_of_enough {bytes : List UInt8} {wanted : Nat} (enough : wanted ≤ bytes.length) :
    ¬(bytes.take wanted).length < wanted := by
  rw [List.length_take_of_le enough]
  exact Nat.lt_irrefl _

/-- A full chunk that comes before the failure is read, and is skipped or begins a record. -/
theorem look_of_full (isFull : chunkLength ≤ framer.source.delivered.length) :
    let chunk := framer.source.delivered.take chunkLength
    ∃ between, framer.Proceeds chunkLength framer.skipped between ∧
      framer.look =
        match Record.announcedLength chunk with
        | .error _ => .skipped (between.skip chunk.length)
        | .ok length => between.finishRecord chunk length := by
  intro chunk
  obtain ⟨rest, isRead, proceeds⟩ := framer.exists_proceeds isFull
  refine ⟨framer.advance chunk rest, proceeds, ?_⟩
  rw [look, isRead]
  exact if_neg (not_short_of_enough isFull)

/-- A full chunk that begins no record is skipped. -/
theorem look_of_skipped (isFull : chunkLength ≤ framer.source.delivered.length)
    {error : RecordError}
    (isError : Record.announcedLength (framer.source.delivered.take chunkLength) = .error error) :
    ∃ later, framer.look = .skipped later ∧
      framer.Proceeds chunkLength
        (framer.skipped + (framer.source.delivered.take chunkLength).length) later := by
  obtain ⟨between, proceeds, isLook⟩ := look_of_full isFull
  rw [isError] at isLook
  exact ⟨_, isLook, proceeds.toReads.skip _, proceeds.delivered, proceeds.failure⟩

/-- A chunk that announces a record is read before the rest of the record is. -/
theorem look_of_length (isFull : chunkLength ≤ framer.source.delivered.length)
    (isLength : Record.announcedLength (framer.source.delivered.take chunkLength) = .ok length) :
    ∃ between, framer.look =
        between.finishRecord (framer.source.delivered.take chunkLength) length ∧
      framer.Proceeds chunkLength framer.skipped between := by
  obtain ⟨between, proceeds, isLook⟩ := look_of_full isFull
  rw [isLength] at isLook
  exact ⟨between, isLook, proceeds⟩

/-- A record that comes before the failure is read. -/
theorem look_of_whole (isFull : chunkLength ≤ framer.source.delivered.length)
    (isLength : Record.announcedLength (framer.source.delivered.take chunkLength) = .ok length)
    (isWhole : length ≤ framer.source.delivered.length) :
    ∃ later, framer.look = .record
        ⟨framer.stream, framer.skipped, .record (framer.source.delivered.take length)⟩ later ∧
      framer.Proceeds length 0 later := by
  have bounds := Record.announcedLength_bounds isLength
  obtain ⟨between, isLook, first⟩ := look_of_length isFull isLength
  have enough : length - chunkLength ≤ between.source.delivered.length := by
    rw [first.delivered, List.length_drop]
    omega
  obtain ⟨rest, isRead, second⟩ := between.exists_proceeds enough
  have whole : framer.source.delivered.take chunkLength ++
      between.source.delivered.take (length - chunkLength) =
        framer.source.delivered.take length := by
    rw [first.delivered, ← List.take_add, Nat.add_sub_cancel' bounds.1]
  refine ⟨(between.advance (between.source.delivered.take (length - chunkLength)) rest).handOn,
    ?_, ?_⟩
  · rw [isLook, finishRecord, isRead]
    dsimp only
    rw [if_neg (not_short_of_enough enough), whole, recordBlock, second.stream, first.stream,
      second.skipped, first.skipped]
  · have reads := first.toReads.trans second.toReads
    rw [whole] at reads
    refine ⟨reads.handOn, ?_, second.failure.trans first.failure⟩
    refine second.delivered.trans ?_
    rw [first.delivered, List.drop_drop, Nat.add_sub_cancel' bounds.1]

/-- Where less than a chunk comes before the failure, reading fails. -/
theorem look_of_lost {message : String} (fails : framer.source.failure? = some message)
    (isShort : framer.source.delivered.length < chunkLength) :
    ∃ final, framer.look = .failed message final ∧ framer.Reads [] framer.skipped final := by
  obtain ⟨rest, isFailed⟩ := Source.read_of_failure fails isShort
  refine ⟨{ framer with source := rest }, ?_, rfl, rfl, ?_, rfl⟩
  · rw [look, isFailed]
  · exact Option.map_id'.symm

/-- Where the failure comes before the end of a record, reading fails. The chunk that announced the
record has been read by then, and is not counted as skipped. -/
theorem look_of_cutOff {message : String} (fails : framer.source.failure? = some message)
    (isFull : chunkLength ≤ framer.source.delivered.length)
    (isLength : Record.announcedLength (framer.source.delivered.take chunkLength) = .ok length)
    (isCutOff : framer.source.delivered.length < length) :
    ∃ final, framer.look = .failed message final ∧
      framer.Reads (framer.source.delivered.take chunkLength) framer.skipped final := by
  obtain ⟨between, isLook, first⟩ := look_of_length isFull isLength
  have isShort : between.source.delivered.length < length - chunkLength := by
    rw [first.delivered, List.length_drop]
    omega
  obtain ⟨rest, isFailed⟩ := Source.read_of_failure (first.failure.trans fails) isShort
  refine ⟨{ between with source := rest }, ?_, first.stream, first.offset, first.hasher,
    first.skipped⟩
  rw [isLook, finishRecord, isFailed]

/-- Reading a stream that fails yields the records that the delivered bytes divide into, and then
the failure. The last stretch of the division, which holds no record, is not counted as skipped. -/
theorem readAll_of_failing (framer : Framer) {bytes : List UInt8} {stretches : List Stretch}
    {message : String} (division : Division bytes stretches)
    (holds : framer.source.delivered = bytes) (fails : framer.source.failure? = some message) :
    ∃ final, framer.readAll =
        (Stretch.blocks framer.stream framer.skipped stretches, .failed message, final) ∧
      framer.Reads (Stretch.readBeforeFailure stretches)
        (Stretch.skippedAtEnd framer.skipped stretches.dropLast) final := by
  -- Each step of the division is one look, as for a stream that does not fail.
  induction division generalizing framer with
  | short isShort =>
      subst holds
      obtain ⟨final, isFailed, reads⟩ := look_of_lost fails isShort
      refine ⟨final, readAll_of_failed isFailed, ?_⟩
      rw [Stretch.readBeforeFailure_skipped, if_pos isShort]
      exact reads
  | noRecord isFull isError rest ih =>
      subst holds
      obtain ⟨later, isSkipped, proceeds⟩ := look_of_skipped isFull isError
      obtain ⟨final, isRead, reads⟩ := ih later proceeds.delivered (proceeds.failure.trans fails)
      rw [proceeds.stream, proceeds.skipped] at isRead
      rw [proceeds.skipped] at reads
      refine ⟨final, ?_, ?_⟩
      · rw [readAll_of_skipped isSkipped, isRead]
        rfl
      · rw [List.dropLast_cons_of_ne_nil rest.ne_nil, Stretch.readBeforeFailure_cons _ rest.ne_nil]
        exact proceeds.toReads.trans reads
  | record isFull isLength bounded isWhole rest ih =>
      subst holds
      obtain ⟨later, isRecord, proceeds⟩ := look_of_whole isFull isLength isWhole
      obtain ⟨final, isRead, reads⟩ := ih later proceeds.delivered (proceeds.failure.trans fails)
      rw [proceeds.stream, proceeds.skipped] at isRead
      rw [proceeds.skipped] at reads
      refine ⟨final, ?_, ?_⟩
      · rw [readAll_of_record isRecord, isRead]
        rfl
      · rw [List.dropLast_cons_of_ne_nil rest.ne_nil, Stretch.readBeforeFailure_cons _ rest.ne_nil]
        exact proceeds.toReads.trans reads
  | cutOff isFull isLength isCutOff =>
      subst holds
      obtain ⟨final, isFailed, reads⟩ := look_of_cutOff fails isFull isLength isCutOff
      refine ⟨final, readAll_of_failed isFailed, ?_⟩
      rw [Stretch.readBeforeFailure_skipped, if_neg (Nat.not_lt_of_le isFull)]
      exact reads

/-- The block at the end of a stream whose delivered bytes divide into some stretches. -/
def endBlock (source : Source) (stream : Nat) (isLast : Bool) (stretches : List Stretch) :
    StreamBlock :=
  match source.failure? with
  | none => ⟨stream, Stretch.skippedAtEnd 0 stretches, .ended isLast⟩
  | some message => ⟨stream, Stretch.skippedAtEnd 0 stretches.dropLast, .failed message⟩

theorem isEnd_endBlock (source : Source) (stream : Nat) (isLast : Bool)
    (stretches : List Stretch) : (endBlock source stream isLast stretches).isEnd := by
  rw [endBlock]
  split <;> rfl

/-- The block at the end of a stream that is marked as the last one ends the run if the stream does
not fail, and only then. -/
theorem isLast_endBlock_iff (source : Source) (stream : Nat) (stretches : List Stretch) :
    (endBlock source stream true stretches).isLast ↔ source.Unfailing := by
  rw [← Source.failure?_eq_none_iff, endBlock]
  split
  next noFailure => simp [StreamBlock.isLast, noFailure]
  next message isFailure => simp [StreamBlock.isLast, isFailure]

/-- Whether it fails or not, a stream is read as the records among the bytes it delivers and one
block at its end. -/
theorem blocks_run {source : Source} {stretches : List Stretch}
    (division : Division source.delivered stretches) (stream : Nat) (wantsDigest isLast : Bool) :
    ((ofSource source stream wantsDigest).run isLast).1 =
      Stretch.blocks stream 0 stretches ++ [endBlock source stream isLast stretches] := by
  cases failure : source.failure? with
  | none =>
      have unfailing := Source.failure?_eq_none_iff.mp failure
      rw [Source.delivered_of_unfailing unfailing] at division
      obtain ⟨final, yields, after⟩ :=
        exists_yields (ofSource source stream wantsDigest) division unfailing rfl
      have isStream : final.stream = stream := after.stream
      have isSkipped : final.skipped = Stretch.skippedAtEnd 0 stretches := after.skipped
      rw [run, yields.readAll_eq]
      simp only [endBlock, failure, isStream, isSkipped]
      rfl
  | some message =>
      obtain ⟨final, isRead, reads⟩ :=
        readAll_of_failing (ofSource source stream wantsDigest) division rfl failure
      have isStream : final.stream = stream := reads.stream
      have isSkipped : final.skipped = Stretch.skippedAtEnd 0 stretches.dropLast := reads.skipped
      rw [run, isRead]
      simp only [endBlock, failure, isStream, isSkipped]
      rfl

end Framer

end Waveform
