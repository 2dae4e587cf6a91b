import Waveform.Proofs.Framing.Failing

/-!
# The accounts of a stream

The summary of a stream tells how many bytes were read and how many of them were skipped. Together
with the records that were handed on these are the whole account of the stream, whether it fails or
not, but for one case: where the stream fails behind the first chunk of a record, this chunk has
been read and belongs to no record, and it is not counted as skipped either. The digest is taken of
what was read in every case.
-/

namespace Waveform

open Framer (chunkLength)

/-- Whether some bytes begin a record that is longer than they are. -/
def Record.IsCutOff (bytes : List UInt8) : Prop :=
  chunkLength ≤ bytes.length ∧
    ∃ length, announcedLength (bytes.take chunkLength) = .ok length ∧ bytes.length < length

theorem Source.delivered_isPrefix (source : Source) : source.delivered <+: source.contents := by
  induction source with
  | nil => exact List.prefix_rfl
  | cons delivery rest ih =>
      cases delivery with
      | bytes piece => exact (List.prefix_append_right_inj piece).mpr ih
      | interrupted => exact ih
      | failed message => exact List.nil_prefix

namespace Stretch

/-- The bytes behind the last record are in no block. -/
theorem blocks_concat_skipped (stream before : Nat) (whole : List Stretch) (tail : List UInt8) :
    blocks stream before (whole ++ [.skipped tail]) = blocks stream before whole := by
  induction whole generalizing before with
  | nil => rfl
  | cons stretch later ih =>
      cases stretch with
      | skipped bytes => exact ih _
      | record bytes => exact congrArg (List.cons _) (ih 0)

theorem readBeforeFailure_isPrefix (bytes : List UInt8) :
    readBeforeFailure [.skipped bytes] <+: bytes := by
  rw [readBeforeFailure_skipped]
  split
  · exact List.nil_prefix
  · exact List.take_prefix chunkLength bytes

theorem readBeforeFailure_concat (whole : List Stretch) (last : Stretch) :
    readBeforeFailure (whole ++ [last]) =
      whole.flatMap Stretch.bytes ++ readBeforeFailure [last] := by
  induction whole with
  | nil => rfl
  | cons stretch later ih =>
      rw [List.cons_append, readBeforeFailure_cons _ (List.concat_ne_nil last later), ih,
        List.flatMap_cons, List.append_assoc]

end Stretch

namespace Division

variable {bytes : List UInt8} {stretches : List Stretch}

/-- Every stream ends with a stretch that is skipped: a chunk that is not full, or a record that is
cut off. -/
theorem exists_tail (division : Division bytes stretches) :
    ∃ whole tail, stretches = whole ++ [.skipped tail] ∧
      (tail.length < chunkLength ∨ Record.IsCutOff tail) := by
  induction division with
  | short isShort => exact ⟨[], _, rfl, .inl isShort⟩
  | noRecord _ _ _ ih | record _ _ _ _ _ ih =>
      obtain ⟨whole, tail, rfl, ending⟩ := ih
      exact ⟨_ :: whole, tail, rfl, ending⟩
  | cutOff isFull isLength isCutOff => exact ⟨[], _, rfl, .inr ⟨isFull, _, isLength, isCutOff⟩⟩

end Division

namespace Source

/-- Whether a source fails while a record is read, behind the chunk that announces the record. -/
def FailsInRecord (source : Source) : Prop :=
  ¬source.Unfailing ∧
    ∃ whole tail, Division source.delivered (whole ++ [.skipped tail]) ∧ Record.IsCutOff tail

variable {source : Source} {whole : List Stretch} {tail : List UInt8}

theorem failsInRecord_iff (division : Division source.delivered (whole ++ [.skipped tail])) :
    source.FailsInRecord ↔ ¬source.Unfailing ∧ Record.IsCutOff tail := by
  constructor
  · rintro ⟨fails, otherWhole, otherTail, otherDivision, isCutOff⟩
    obtain ⟨_, sameTail⟩ := List.append_inj' (division.unique otherDivision) rfl
    cases sameTail
    exact ⟨fails, isCutOff⟩
  · rintro ⟨fails, isCutOff⟩
    exact ⟨fails, whole, tail, division, isCutOff⟩

end Source

namespace Framer

/-- What has been counted once a stream has been read as far as it can be: some bytes as bytes of
records or as skipped, and some not at all. -/
structure Accounts (source : Source) (wantsDigest : Bool) (blocks : List StreamBlock)
    (final : Framer) (counted uncounted : List UInt8) : Prop where
  read : counted ++ uncounted <+: source.contents
  offset : final.offset = (counted ++ uncounted).length
  digest : (final.hasher.map fun hasher => Md5.hexText hasher.digest) =
    if wantsDigest then some (Md5.text (counted ++ uncounted)) else none
  total : totalOf (fun block => block.bytes.length) blocks +
    (skippedBefore blocks + final.skipped) = counted.length
  torn : source.FailsInRecord → uncounted.length = chunkLength
  whole : ¬source.FailsInRecord → uncounted = []

/-- The digest of a framer that has read some bytes since the start of the stream. -/
theorem Reads.digest_eq {source : Source} {stream skipped : Nat} {wantsDigest : Bool}
    {bytes : List UInt8} {final : Framer}
    (reads : (ofSource source stream wantsDigest).Reads bytes skipped final) :
    (final.hasher.map fun hasher => Md5.hexText hasher.digest) =
      if wantsDigest then some (Md5.text bytes) else none := by
  rw [reads.hasher]
  cases wantsDigest <;> rfl

/-- All bytes of a stream that does not fail are counted. -/
theorem exists_accounts_of_unfailing {source : Source} (unfailing : source.Unfailing)
    (stream : Nat) (wantsDigest : Bool) :
    ∃ blocks final,
      (ofSource source stream wantsDigest).readAll = (blocks, .ended, final) ∧
      Accounts source wantsDigest blocks final source.contents [] := by
  obtain ⟨stretches, division⟩ := Division.exists_division source.contents
  obtain ⟨final, yields, after⟩ :=
    exists_yields (ofSource source stream wantsDigest) division unfailing rfl
  have counts : Counts source.contents stretches (Stretch.blocks stream 0 stretches)
      wantsDigest final := after.counts division.flatMap_bytes
  refine ⟨Stretch.blocks stream 0 stretches, final, yields.readAll_eq, ?_⟩
  constructor
  case read => rw [List.append_nil]
  case offset => rw [List.append_nil, counts.offset]
  case digest => rw [List.append_nil, counts.digest]
  case total => exact counts.total
  case torn => exact fun fails => absurd unfailing fails.1
  case whole => exact fun _ => rfl

/-- Of a stream that fails all stretches but the last one are counted. -/
theorem exists_accounts_of_failing {source : Source} {message : String}
    (fails : source.failure? = some message) (stream : Nat) (wantsDigest : Bool) :
    ∃ blocks final counted uncounted,
      (ofSource source stream wantsDigest).readAll = (blocks, .failed message, final) ∧
      Accounts source wantsDigest blocks final counted uncounted := by
  have notUnfailing : ¬source.Unfailing := by
    rw [← Source.failure?_eq_none_iff, fails]
    exact Option.some_ne_none message
  obtain ⟨stretches, division⟩ := Division.exists_division source.delivered
  obtain ⟨whole, tail, rfl, ending⟩ := division.exists_tail
  obtain ⟨final, isRead, reads⟩ :=
    readAll_of_failing (ofSource source stream wantsDigest) division rfl fails
  rw [Stretch.blocks_concat_skipped] at isRead
  rw [Stretch.readBeforeFailure_concat, List.dropLast_concat] at reads
  refine ⟨_, final, whole.flatMap Stretch.bytes, Stretch.readBeforeFailure [.skipped tail],
    isRead, ?_⟩
  constructor
  case read =>
    have tiled := division.flatMap_bytes
    rw [List.flatMap_append, List.flatMap_singleton] at tiled
    refine List.IsPrefix.trans ?_ source.delivered_isPrefix
    rw [← tiled]
    exact (List.prefix_append_right_inj _).mpr (Stretch.readBeforeFailure_isPrefix tail)
  case offset => exact reads.offset.trans (Nat.zero_add _)
  case digest => exact reads.digest_eq
  case total =>
    have total := Stretch.total_blocks stream 0 whole
    rw [Nat.zero_add, Nat.add_assoc] at total
    rw [reads.skipped]
    exact total
  case torn =>
    intro failsInRecord
    have isFull := ((Source.failsInRecord_iff division).mp failsInRecord).2.1
    rw [Stretch.readBeforeFailure_skipped, if_neg (Nat.not_lt_of_le isFull),
      List.length_take_of_le isFull]
  case whole =>
    intro notInRecord
    rcases ending with isShort | isCutOff
    · exact if_pos isShort
    · exact absurd ((Source.failsInRecord_iff division).mpr ⟨notUnfailing, isCutOff⟩) notInRecord

theorem exists_accounts (source : Source) (stream : Nat) (wantsDigest : Bool) :
    ∃ blocks ending final counted uncounted,
      (ofSource source stream wantsDigest).readAll = (blocks, ending, final) ∧
      Accounts source wantsDigest blocks final counted uncounted := by
  cases failure : source.failure? with
  | none =>
      have unfailing := Source.failure?_eq_none_iff.mp failure
      obtain ⟨blocks, final, isRead, accounts⟩ :=
        exists_accounts_of_unfailing unfailing stream wantsDigest
      exact ⟨blocks, .ended, final, source.contents, [], isRead, accounts⟩
  | some message =>
      obtain ⟨blocks, final, counted, uncounted, isRead, accounts⟩ :=
        exists_accounts_of_failing failure stream wantsDigest
      exact ⟨blocks, .failed message, final, counted, uncounted, isRead, accounts⟩

/-- What a run counts as bytes of records or as skipped. The block at the end holds no record. -/
theorem counted_run {framer final : Framer} {records : List StreamBlock} {ending : Ending}
    (isRead : framer.readAll = (records, ending, final)) (isLast : Bool) :
    totalOf (fun block => block.bytes.length) (framer.run isLast).1 +
        (framer.run isLast).2.skipped =
      totalOf (fun block => block.bytes.length) records +
        (skippedBefore records + final.skipped) := by
  have isSentinel : (StreamBlock.bytes ⟨final.stream, final.skipped,
      ending.content isLast⟩).length = 0 := by
    cases ending <;> rfl
  rw [run, isRead, totalOf_append, totalOf_cons, totalOf_nil, isSentinel]
  rfl

/-- The accounts of a stream, however its source behaves. The bytes that the summary tells are those
of the records that were handed on and those that were skipped, and all of them, unless the source
fails in a record: then the summary tells one chunk more, the one that announced the record. In
every case the bytes told are the first ones of the stream, and the digest is taken of these. -/
theorem run_balances (source : Source) (stream : Nat) (wantsDigest isLast : Bool) :
    let blocks := ((ofSource source stream wantsDigest).run isLast).1
    let summary := ((ofSource source stream wantsDigest).run isLast).2
    let counted := totalOf (fun block => block.bytes.length) blocks + summary.skipped
    (summary.bytes = counted ↔ ¬source.FailsInRecord) ∧
    (source.FailsInRecord → summary.bytes = counted + chunkLength) ∧
    summary.bytes ≤ source.contents.length ∧
    summary.digest =
      if wantsDigest then some (Md5.text (source.contents.take summary.bytes)) else none := by
  intro blocks summary counted
  obtain ⟨records, ending, final, told, untold, isRead, accounts⟩ :=
    exists_accounts source stream wantsDigest
  have isBytes : summary.bytes = (told ++ untold).length := by
    rw [← accounts.offset]
    exact congrArg (fun read => read.2.2.offset) isRead
  have isCounted : counted = told.length := by
    rw [← accounts.total]
    exact counted_run isRead isLast
  have isDigest : summary.digest =
      if wantsDigest then some (Md5.text (told ++ untold)) else none := by
    rw [← accounts.digest]
    exact congrArg (fun read => read.2.2.hasher.map fun hasher => Md5.hexText hasher.digest) isRead
  have torn : source.FailsInRecord → summary.bytes = counted + chunkLength := by
    intro failsInRecord
    rw [isBytes, isCounted, List.length_append, accounts.torn failsInRecord]
  have positive : 0 < chunkLength := by decide
  refine ⟨⟨?_, ?_⟩, torn, ?_, ?_⟩
  · intro balanced failsInRecord
    have unbalanced := torn failsInRecord
    omega
  · intro notInRecord
    rw [isBytes, isCounted, accounts.whole notInRecord, List.append_nil]
  · rw [isBytes]
    exact accounts.read.length_le
  · rw [isDigest, isBytes, ← List.prefix_iff_eq_take.mp accounts.read]

/-- A stream that fails behind a record and in the middle of the next one, which is of 512 bytes. -/
def tornRecordSource : Source :=
  [.bytes (leastRecord ++ leastRecord.set 54 9), .bytes [1, 2, 3], .failed "torn"]

set_option maxRecDepth 4000 in
theorem failsInRecord_tornRecordSource : tornRecordSource.FailsInRecord := by
  have delivered : tornRecordSource.delivered =
      leastRecord ++ (leastRecord.set 54 9 ++ [1, 2, 3]) := by decide +kernel
  have isCutOff : Record.IsCutOff (leastRecord.set 54 9 ++ [1, 2, 3]) :=
    ⟨by decide, 512, by rfl, by decide⟩
  have ⟨isFull, _, isLength, isShort⟩ := isCutOff
  refine ⟨?_, [.record leastRecord], leastRecord.set 54 9 ++ [1, 2, 3], ?_, isCutOff⟩
  · intro unfailing
    exact unfailing "torn" (by decide)
  · rw [delivered]
    exact .record_append (by rfl) (.cutOff isFull isLength isShort)

theorem run_balances_torn :
    let blocks := ((ofSource tornRecordSource 0 true).run false).1
    let summary := ((ofSource tornRecordSource 0 true).run false).2
    tornRecordSource.FailsInRecord ∧
    summary.bytes =
      totalOf (fun block => block.bytes.length) blocks + summary.skipped + chunkLength := by
  intro blocks summary
  have fails := failsInRecord_tornRecordSource
  exact ⟨fails, (run_balances tornRecordSource 0 true false).2.1 fails⟩

end Framer

end Waveform
