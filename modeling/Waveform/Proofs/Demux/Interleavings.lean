import Waveform.Proofs.Demux.Draining
import Waveform.Proofs.Framing.Reading
import Waveform.Session

/-!
# Runs over interleaved streams

Streams may be read at the same time, so that their blocks reach the demultiplexer interleaved in
any way. What the run counts is what the streams hold: every byte, and every record in one class.
How the blocks are interleaved makes no difference to it.
-/

namespace Waveform

/-- Whether a list takes the items of several lists one by one, each time the first one left of some
list, until none is left. -/
inductive Interleaving {α : Type} : List (List α) → List α → Prop where
  | done {lists : List (List α)} (noneLeft : ∀ list ∈ lists, list = []) : Interleaving lists []
  | next {before after : List (List α)} {item : α} {rest merged : List α}
      (later : Interleaving (before ++ rest :: after) merged) :
      Interleaving (before ++ (item :: rest) :: after) (item :: merged)

/-- An interleaving has the items of all lists. -/
theorem Interleaving.perm {α : Type} {lists : List (List α)} {merged : List α}
    (interleaving : Interleaving lists merged) : merged.Perm lists.flatten := by
  induction interleaving with
  | done noneLeft => rw [List.flatten_eq_nil_iff.mpr noneLeft]
  | @next before after item rest merged later ih =>
      simp only [List.flatten_append, List.flatten_cons, List.cons_append] at ih ⊢
      exact (ih.cons item).trans List.perm_middle.symm

/-- What holds of all items of all lists holds of all items of an interleaving. -/
theorem Interleaving.forall_mem {α : Type} {lists : List (List α)} {merged : List α}
    (interleaving : Interleaving lists merged) {property : α → Prop}
    (holds : ∀ list ∈ lists, ∀ item ∈ list, property item) : ∀ item ∈ merged, property item := by
  intro item member
  obtain ⟨list, isList, isIn⟩ := List.mem_flatten.mp (interleaving.perm.mem_iff.mp member)
  exact holds list isList item isIn

/-- An item of one list may come between two items of another one. -/
theorem Interleaving.crossed {α : Type} (first other last : α) :
    Interleaving [[first, last], [other]] [first, other, last] := by
  have empty : Interleaving [[], []] ([] : List α) := .done (by simp)
  have lastOnly : Interleaving [[last], []] [last] := @next _ [] [[]] last [] [] empty
  have bothLeft : Interleaving [[last], [other]] [other, last] :=
    @next _ [[last]] [] other [] [last] lastOnly
  exact @next _ [] [[other]] first [last] [other, last] bothLeft

/-! ## What reading a stream comes to -/

namespace Stretch

/-- The blocks of stretches are blocks of records. -/
theorem exists_record_of_mem_blocks {stream before : Nat} {stretches : List Stretch}
    {block : StreamBlock} (member : block ∈ blocks stream before stretches) :
    ∃ bytes, block.content = .record bytes := by
  induction stretches generalizing before with
  | nil => cases member
  | cons stretch later ih =>
      cases stretch with
      | skipped bytes => exact ih member
      | record bytes =>
          rcases List.mem_cons.mp member with rfl | isLater
          · exact ⟨bytes, rfl⟩
          · exact ih isLater

end Stretch

/-- Whether some blocks carry so many bytes, so many of them skipped, and so many records, and tell
nothing else but that a stream has ended. -/
structure Carry (blocks : List StreamBlock) (bytes skipped records : Nat) : Prop where
  bytes : totalOf (fun block => block.bytes.length + block.skipped) blocks = bytes
  skipped : totalOf StreamBlock.skipped blocks = skipped
  records : (blocks.filterMap StreamBlock.record?).length = records
  plain : ∀ block ∈ blocks, (∃ bytes, block.content = .record bytes) ∨ block.content = .ended false

namespace Carry

variable {blocks others : List StreamBlock} {bytes skipped records : Nat}

theorem append {moreBytes moreSkipped moreRecords : Nat}
    (carry : Carry blocks bytes skipped records)
    (carryMore : Carry others moreBytes moreSkipped moreRecords) :
    Carry (blocks ++ others) (bytes + moreBytes) (skipped + moreSkipped)
      (records + moreRecords) where
  bytes := by rw [totalOf_append, carry.bytes, carryMore.bytes]
  skipped := by rw [totalOf_append, carry.skipped, carryMore.skipped]
  records := by
    rw [List.filterMap_append, List.length_append, carry.records, carryMore.records]
  plain := List.forall_mem_append.mpr ⟨carry.plain, carryMore.plain⟩

theorem perm (carry : Carry blocks bytes skipped records) (isPerm : others.Perm blocks) :
    Carry others bytes skipped records where
  bytes := (totalOf_perm _ isPerm).trans carry.bytes
  skipped := (totalOf_perm _ isPerm).trans carry.skipped
  records := (isPerm.filterMap _).length_eq.trans carry.records
  plain block member := carry.plain block (isPerm.mem_iff.mp member)

end Carry

/-- A stream that does not fail is read to its end, which comes after the records it holds. -/
theorem Framer.run_of_division {source : Source} {stretches : List Stretch}
    (division : Division (Source.contents source) stretches) (unfailing : source.Unfailing)
    (stream : Nat) (wantsDigest : Bool) :
    ∃ final, Counts (Source.contents source) stretches (Stretch.blocks stream 0 stretches)
        wantsDigest final ∧
      (ofSource source stream wantsDigest).run false =
        (Stretch.blocks stream 0 stretches ++ [⟨stream, final.skipped, .ended false⟩],
          final.outcome (skippedBefore (Stretch.blocks stream 0 stretches)) none false) := by
  obtain ⟨final, yields, after⟩ :=
    exists_yields (ofSource source stream wantsDigest) division unfailing rfl
  have isStream : final.stream = stream := after.stream
  have isRead : (ofSource source stream wantsDigest).readAll =
      (Stretch.blocks stream 0 stretches, .ended, final) := yields.readAll_eq
  refine ⟨final, after.counts division.flatMap_bytes, ?_⟩
  rw [run, isRead]
  simp only [isStream]
  rfl

/-- The blocks of a stream that does not fail carry all of its bytes. -/
theorem Framer.carry_run {source : Source} (unfailing : source.Unfailing) (stream : Nat)
    (wantsDigest : Bool) :
    let read := (ofSource source stream wantsDigest).run false
    Carry read.1 (Source.contents source).length read.2.skipped read.2.records := by
  obtain ⟨stretches, division⟩ := Division.exists_division (Source.contents source)
  obtain ⟨final, counts, isRun⟩ := run_of_division division unfailing stream wantsDigest
  have isSkipped : totalOf StreamBlock.skipped [⟨stream, final.skipped, .ended false⟩] =
    final.skipped := rfl
  rw [isRun]
  constructor
  case bytes =>
    rw [totalOf_add, totalOf_append, totalOf_append, ← counts.total, isSkipped]
    rfl
  case skipped =>
    rw [totalOf_append, isSkipped]
    rfl
  case records =>
    have isEnd : StreamBlock.record? ⟨stream, final.skipped, .ended false⟩ = none := rfl
    have areRecords : ∀ block ∈ Stretch.blocks stream 0 stretches, block.record?.isSome := by
      intro block member
      obtain ⟨bytes, isRecord⟩ := Stretch.exists_record_of_mem_blocks member
      simp [StreamBlock.record?, isRecord]
    rw [List.filterMap_append, List.length_append, List.length_filterMap_eq_countP,
      List.countP_eq_length.mpr areRecords, List.filterMap_cons_none isEnd]
    exact counts.records.symm
  case plain =>
    intro block member
    rcases List.mem_append.mp member with isRecord | isEnd
    · exact .inl (Stretch.exists_record_of_mem_blocks isRecord)
    · obtain rfl := List.mem_singleton.mp isEnd
      exact .inr rfl

/-- The blocks of streams that do not fail carry all of their bytes. -/
theorem SessionConfig.carry_readStreams (config : SessionConfig) {streams : List Source}
    (unfailing : ∀ source ∈ streams, source.Unfailing) :
    Carry ((config.readStreams streams).map Prod.fst).flatten
      (totalOf (fun source => (Source.contents source).length) streams)
      (totalOf (fun read => read.2.skipped) (config.readStreams streams))
      (totalOf (fun read => read.2.records) (config.readStreams streams)) := by
  simp only [readStreams]
  generalize 0 = first
  induction streams generalizing first with
  | nil => exact ⟨rfl, rfl, rfl, by simp⟩
  | cons source later ih =>
      obtain ⟨isUnfailing, laterUnfailing⟩ := List.forall_mem_cons.mp unfailing
      exact (Framer.carry_run isUnfailing first config.wantsDigest).append
        (ih laterUnfailing (first + 1))

namespace Demux

variable {demux : Demux} {blocks : List StreamBlock}

/-- Finishing leaves the counters, but for those that depend on how traces follow each other. -/
theorem settled_finish {split : Split} (isFinished : demux.finish = .ok split) :
    split.counters.settled = demux.counters.settled := by
  obtain ⟨finished, _, rfl⟩ := finish_eq_ok_iff.mp isFinished
  rfl

/-- A run over blocks that only carry records and ends of streams has a result, whose counters are
what the blocks count for. -/
theorem run_spec (selection : Selection) (tolerance : Tolerance) {bytes skipped records : Nat}
    (carry : Carry blocks bytes skipped records) :
    ∃ split, ((start selection tolerance).run (blocks ++ [StreamBlock.endOfRun])).result =
        .ok (some split) ∧
      split.counters.settled = Counters.ofBlocks selection blocks := by
  have notLast : ∀ block ∈ blocks, block.isLast = false := by
    intro block member
    rcases carry.plain block member with ⟨_, isRecord⟩ | isEnd
    · simp [StreamBlock.isLast, isRecord]
    · simp [StreamBlock.isLast, isEnd]
  have unfailed : ∀ block ∈ blocks ++ [StreamBlock.endOfRun], block.failure? = none := by
    refine List.forall_mem_append.mpr ⟨?_, List.forall_mem_singleton.mpr rfl⟩
    intro block member
    rcases carry.plain block member with ⟨_, isRecord⟩ | isEnd
    · simp [StreamBlock.failure?, isRecord]
    · simp [StreamBlock.failure?, isEnd]
  let final := (start selection tolerance).receiveAll (blocks ++ [StreamBlock.endOfRun])
  have drained :
      ((start selection tolerance).drain (blocks ++ [StreamBlock.endOfRun])).2 = (final, []) :=
    drain_of_last notLast rfl []
  have noFailure : final.failure = none := failure_receiveAll unfailed
  obtain ⟨split, isFinished, _⟩ :=
    ((wellFormed_start selection tolerance).receiveAll
      (blocks ++ [StreamBlock.endOfRun])).finish_under
  refine ⟨split, ?_, ?_⟩
  · simp only [run, drained, conclude, noFailure]
    rw [isFinished]
  · rw [settled_finish isFinished, settled_receiveAll, Counters.ofBlocks_append_singleton]
    rfl

end Demux

/-- Whether counters account for streams that have been read: all of their bytes are counted, all of
their records, and each of these in the class that it is in. -/
structure Counters.AccountFor (counters : Counters) (selection : Selection)
    (streams : List Source) (reads : List (List StreamBlock × StreamSummary)) : Prop where
  bytes : counters.bytes = totalOf (fun source => (Source.contents source).length) streams
  skipped : counters.skippedBytes = totalOf (fun read => read.2.skipped) reads
  records : counters.kept + counters.discarded = totalOf (fun read => read.2.records) reads
  balanced : counters.Balanced
  classes : ∀ recordClass, counters.inClass recordClass =
    selection.countOf ((reads.map Prod.fst).flatten.filterMap StreamBlock.record?) recordClass

namespace SessionConfig

variable (config : SessionConfig) {streams : List Source} {merged : List StreamBlock}

/-- A run over all blocks of streams that do not fail, in any order, accounts for the streams. -/
theorem exists_account (unfailing : ∀ source ∈ streams, source.Unfailing)
    (isPerm : merged.Perm ((config.readStreams streams).map Prod.fst).flatten) :
    ∃ split,
      ((Demux.start config.selection config.tolerance).run
        (merged ++ [StreamBlock.endOfRun])).result = .ok (some split) ∧
      split.counters.AccountFor config.selection streams (config.readStreams streams) ∧
      split.counters.settled = Counters.ofBlocks config.selection merged := by
  have carry := (config.carry_readStreams unfailing).perm isPerm
  obtain ⟨split, isSplit, isCounted⟩ := Demux.run_spec config.selection config.tolerance carry
  have balanced : split.counters.settled.Balanced :=
    isCounted ▸ Counters.balanced_ofBlocks config.selection merged
  refine ⟨split, isSplit, ?_, isCounted⟩
  constructor
  case bytes => exact (congrArg Counters.bytes isCounted).trans carry.bytes
  case skipped => exact (congrArg Counters.skippedBytes isCounted).trans carry.skipped
  case records =>
    have total := Counters.kept_add_discarded_ofBlocks config.selection merged
    rw [← isCounted, carry.records] at total
    exact total
  case balanced => exact ⟨balanced.discarded, balanced.records, balanced.decodeFailures⟩
  case classes =>
    intro recordClass
    have counted := Counters.inClass_ofBlocks config.selection merged recordClass
    rw [← isCounted, Counters.inClass_settled, Selection.countOf,
      (isPerm.filterMap StreamBlock.record?).countP_eq] at counted
    exact counted

/-- However the blocks of streams that do not fail are interleaved, the run has a result. Its
counters account for the streams, and they are the same for every other interleaving, but for those
that depend on how the records of a track follow each other. -/
theorem run_interleaved (unfailing : ∀ source ∈ streams, source.Unfailing)
    (interleaving : Interleaving ((config.readStreams streams).map Prod.fst) merged) :
    ∃ split,
      ((Demux.start config.selection config.tolerance).run
        (merged ++ [StreamBlock.endOfRun])).result = .ok (some split) ∧
      split.counters.AccountFor config.selection streams (config.readStreams streams) ∧
      ∀ otherMerged, Interleaving ((config.readStreams streams).map Prod.fst) otherMerged →
        ∃ other,
          ((Demux.start config.selection config.tolerance).run
            (otherMerged ++ [StreamBlock.endOfRun])).result = .ok (some other) ∧
          other.counters.settled = split.counters.settled := by
  obtain ⟨split, isSplit, account, isCounted⟩ :=
    config.exists_account unfailing interleaving.perm
  refine ⟨split, isSplit, account, ?_⟩
  intro otherMerged otherInterleaving
  obtain ⟨other, isOther, _, otherCounted⟩ :=
    config.exists_account unfailing otherInterleaving.perm
  refine ⟨other, isOther, ?_⟩
  rw [otherCounted, isCounted]
  exact Counters.ofBlocks_perm (otherInterleaving.perm.trans interleaving.perm.symm)

/-- Two streams, of which only the first has a record. -/
def unequalStreams : List Source := [Framer.interruptedSource, [.bytes [1, 2, 3]]]

/-- The blocks of these streams. The second one ends before the first. -/
def crossedBlocks : List StreamBlock :=
  [⟨0, 256, .record Framer.leastRecord⟩, ⟨1, 3, .ended false⟩, ⟨0, 3, .ended false⟩]

set_option maxRecDepth 4000 in
theorem run_interleaved_crossed :
    (∀ source ∈ unequalStreams, source.Unfailing) ∧
      ∃ split,
        ((Demux.start Selection.everything Tolerance.standard).run
          (crossedBlocks ++ [StreamBlock.endOfRun])).result = .ok (some split) ∧
        split.counters.bytes = 518 ∧ split.counters.skippedBytes = 262 ∧
        split.counters.heartbeats = 1 ∧ split.counters.kept = 0 := by
  have unfailing : ∀ source ∈ unequalStreams, source.Unfailing := by
    intro source member message failed
    simp only [unequalStreams, List.mem_cons, List.not_mem_nil, or_false] at member
    rcases member with rfl | rfl
    · exact Framer.unfailing_interruptedSource message failed
    · simp at failed
  obtain ⟨firstUnfailing, laterUnfailing⟩ := List.forall_mem_cons.mp unfailing
  obtain ⟨first, firstCounts, isFirst⟩ :=
    Framer.run_of_division Framer.division_interruptedSource firstUnfailing 0 true
  obtain ⟨second, secondCounts, isSecond⟩ :=
    Framer.run_of_division (Division.short (by decide))
      (List.forall_mem_singleton.mp laterUnfailing) 1 true
  have firstSkipped : first.skipped = 3 := firstCounts.skipped
  have secondSkipped : second.skipped = 3 := secondCounts.skipped
  have reads : standard.readStreams unequalStreams =
      [([⟨0, 256, .record Framer.leastRecord⟩, ⟨0, 3, .ended false⟩],
          first.outcome 256 none false),
        ([⟨1, 3, .ended false⟩], second.outcome 0 none false)] := by
    simp [readStreams, standard, unequalStreams, isFirst, isSecond, firstSkipped, secondSkipped,
      Stretch.blocks, Framer.skippedBefore]
  have interleaving : Interleaving ((standard.readStreams unequalStreams).map Prod.fst)
      crossedBlocks := by
    rw [reads]
    exact .crossed _ _ _
  obtain ⟨split, isSplit, account, _⟩ := standard.run_interleaved unfailing interleaving
  refine ⟨unfailing, split, isSplit, ?_, ?_, ?_, ?_⟩
  · rw [account.bytes]
    decide +kernel
  · rw [account.skipped, reads]
    simp [Framer.outcome, firstSkipped, secondSkipped]
  · have heartbeats := account.classes .heartbeat
    rw [reads] at heartbeats
    exact heartbeats
  · have kept := account.classes .kept
    rw [reads] at kept
    exact kept

/-- A session over streams that do not fail has a result, and it accounts for the streams. -/
theorem split_accountFor (unfailing : ∀ source ∈ streams, source.Unfailing)
    (total : Option Nat) :
    ∃ split, (config.split streams total false).result = .ok (some split) ∧
      split.counters.AccountFor config.selection streams (config.readStreams streams) ∧
      split.streams = (config.readStreams streams).map Prod.snd := by
  obtain ⟨split, isSplit, account, _⟩ := config.exists_account unfailing (List.Perm.refl _)
  refine ⟨{ split with streams := (config.readStreams streams).map Prod.snd }, ?_, account, rfl⟩
  simp only [SessionConfig.split, frameStreams]
  rw [List.flatMap_def, isSplit]
  rfl

end SessionConfig

end Waveform
