import Waveform.Demux.Run
import Waveform.Proofs.Demux.Counting
import Waveform.Proofs.Demux.Isolation
import Waveform.Proofs.Monitor.Watching

/-!
# Runs to the end of their blocks

A run processes blocks up to the first one that ends it. After each of them it publishes how many
bytes the blocks so far hold, and when it is over, one more snapshot that tells how it ended: with
the first failure of a stream among its blocks, however many fail, or with a result. The bytes are
counted in 64 bits, which is exact as long as the blocks hold no more than that.
-/

namespace Waveform

namespace StreamBlock

/-- The blocks up to the first one that ends the run, this one included; all blocks if none does. -/
def throughLast (blocks : List StreamBlock) : List StreamBlock :=
  blocks.take (blocks.findIdx isLast + 1)

/-- The blocks after the first one that ends the run. -/
def afterLast (blocks : List StreamBlock) : List StreamBlock :=
  blocks.drop (blocks.findIdx isLast + 1)

/-- The bytes of some blocks, those skipped included. -/
def bytesIn (blocks : List StreamBlock) : Nat :=
  totalOf (fun block => block.bytes.length + block.skipped) blocks

/-- The message of the failure of a stream. -/
def failure? (block : StreamBlock) : Option String :=
  match block.content with
  | .failed message => some message
  | _ => none

/-- What there is to tell about a run once a block has been processed. -/
def stageAfter (block : StreamBlock) : SplitStage :=
  match block.content with
  | .record _ | .ended true => .running
  | .ended false | .failed _ => .streamDone block.stream

/-- The snapshot after one of some blocks: the bytes up to it, and what there is to tell then. -/
def progressAt (blocks : List StreamBlock) (index : Nat) : Option SplitProgress :=
  blocks[index]?.map fun block => ⟨bytesIn (blocks.take (index + 1)), block.stageAfter⟩

variable {block : StreamBlock} {blocks before : List StreamBlock}

theorem continuation_eq_stop_iff : block.continuation = .stop ↔ block.isLast := by
  simp [continuation]

theorem continuation_eq_goOn_iff : block.continuation = .goOn ↔ block.isLast = false := by
  simp [continuation]

theorem throughLast_cons_of_last (isLast : block.isLast) (blocks : List StreamBlock) :
    throughLast (block :: blocks) = [block] ∧ afterLast (block :: blocks) = blocks := by
  simp [throughLast, afterLast, List.findIdx_cons, isLast]

theorem throughLast_cons_of_notLast (notLast : block.isLast = false)
    (blocks : List StreamBlock) :
    throughLast (block :: blocks) = block :: throughLast blocks ∧
      afterLast (block :: blocks) = afterLast blocks := by
  simp [throughLast, afterLast, List.findIdx_cons, notLast]

/-- The first block that ends the run parts the blocks. -/
theorem throughLast_append (noneLast : ∀ other ∈ before, other.isLast = false)
    (isLast : block.isLast) (left : List StreamBlock) :
    throughLast (before ++ block :: left) = before ++ [block] ∧
      afterLast (before ++ block :: left) = left := by
  induction before with
  | nil => exact throughLast_cons_of_last isLast left
  | cons other later ih =>
      obtain ⟨notLast, laterNotLast⟩ := List.forall_mem_cons.mp noneLast
      obtain ⟨isThrough, isAfter⟩ := ih laterNotLast
      obtain ⟨through, after⟩ :=
        throughLast_cons_of_notLast notLast (later ++ block :: left)
      exact ⟨through.trans (by rw [isThrough, List.cons_append]), after.trans isAfter⟩

/-- Without a block that ends the run no block is left. -/
theorem throughLast_of_none (noneLast : ∀ other ∈ blocks, other.isLast = false) :
    throughLast blocks = blocks ∧ afterLast blocks = [] := by
  have isLength : blocks.findIdx isLast = blocks.length :=
    List.findIdx_eq_length.mpr noneLast
  rw [throughLast, afterLast, isLength]
  exact ⟨List.take_of_length_le (Nat.le_succ _), List.drop_of_length_le (Nat.le_succ _)⟩

end StreamBlock

namespace Demux

open StreamBlock

variable {demux : Demux} {blocks : List StreamBlock}

/-! ## Draining -/

/-- The snapshots after each of some blocks. -/
def snapshots (demux : Demux) : List StreamBlock → List SplitProgress
  | [] => []
  | block :: later =>
      let next := (demux.receive block).2
      next.snapshot block :: next.snapshots later

/-- Draining processes the blocks up to the first one that ends the run. -/
theorem drain_eq (demux : Demux) (blocks : List StreamBlock) :
    demux.drain blocks =
      (demux.snapshots (throughLast blocks), demux.receiveAll (throughLast blocks),
        afterLast blocks) := by
  induction blocks generalizing demux with
  | nil => rfl
  | cons block later ih =>
      have isNext : demux.receive block = (block.continuation, (demux.receive block).2) :=
        Prod.ext (demux.continuation_receive block) rfl
      cases isLast : block.isLast with
      | true =>
          obtain ⟨isThrough, isAfter⟩ := throughLast_cons_of_last isLast later
          rw [continuation_eq_stop_iff.mpr isLast] at isNext
          rw [drain, isNext, isThrough, isAfter]
          rfl
      | false =>
          obtain ⟨isThrough, isAfter⟩ := throughLast_cons_of_notLast isLast later
          rw [continuation_eq_goOn_iff.mpr isLast] at isNext
          rw [drain, isNext, isThrough, isAfter]
          dsimp only
          rw [ih]
          rfl

/-- Draining stops at the first block that ends the run. -/
theorem drain_of_last {before : List StreamBlock} {block : StreamBlock}
    (noneLast : ∀ other ∈ before, other.isLast = false) (isLast : block.isLast)
    (left : List StreamBlock) :
    (demux.drain (before ++ block :: left)).2 = (demux.receiveAll (before ++ [block]), left) := by
  obtain ⟨isThrough, isAfter⟩ := throughLast_append noneLast isLast left
  rw [drain_eq, isThrough, isAfter]

/-- Draining takes all blocks if none of them ends the run. -/
theorem drain_of_noneLast (noneLast : ∀ other ∈ blocks, other.isLast = false) :
    (demux.drain blocks).2 = (demux.receiveAll blocks, []) := by
  obtain ⟨isThrough, isAfter⟩ := throughLast_of_none noneLast
  rw [drain_eq, isThrough, isAfter]

theorem failure_receive_of_unfailed {block : StreamBlock} (unfailed : block.failure? = none) :
    (demux.receive block).2.failure = demux.failure := by
  obtain ⟨stream, skipped, content⟩ := block
  cases content with
  | record bytes => exact failure_receiveRecord _ bytes
  | ended isLast => rfl
  | failed message => cases unfailed

/-- A run in which no stream fails notes no failure. -/
theorem failure_receiveAll (unfailed : ∀ block ∈ blocks, block.failure? = none) :
    (demux.receiveAll blocks).failure = demux.failure := by
  induction blocks generalizing demux with
  | nil => rfl
  | cons block later ih =>
      obtain ⟨isUnfailed, laterUnfailed⟩ := List.forall_mem_cons.mp unfailed
      exact (ih laterUnfailed).trans (failure_receive_of_unfailed isUnfailed)

/-- How a run over some blocks ends: as failed, with the first failure of a stream among them, or as
complete, with the result that their final state comes to. -/
inductive Ending (final : Demux) (processed : List StreamBlock) :
    Except SplitError (Option Split) → SplitProgress → Prop where
  | failed {before after : List StreamBlock} {block : StreamBlock} {message : String}
      (isSplit : processed = before ++ block :: after) (fails : block.failure? = some message)
      (isFirst : ∀ earlier ∈ before, earlier.failure? = none) :
      Ending final processed
        (.error (.stream ⟨block.stream, bytesIn (before ++ [block]), message⟩))
        ⟨bytesIn (before ++ [block]), .failed ⟨.stream, message⟩⟩
  | complete {split : Split} (unfailed : ∀ block ∈ processed, block.failure? = none)
      (isFinished : final.finish = .ok split) :
      Ending final processed (.ok (some split)) ⟨bytesIn processed, .complete⟩

/-- A run fails for a stream if and only if one of its blocks tells that a stream failed. -/
theorem Ending.stream_iff {final : Demux} {processed : List StreamBlock}
    {result : Except SplitError (Option Split)} {terminal : SplitProgress}
    (ending : Ending final processed result terminal) :
    (∃ failure, result = .error (.stream failure)) ↔
      ∃ block ∈ processed, ∃ message, block.failure? = some message := by
  cases ending with
  | failed isSplit fails isFirst =>
      subst isSplit
      exact ⟨fun _ => ⟨_, List.mem_append_right _ List.mem_cons_self, _, fails⟩,
        fun _ => ⟨_, rfl⟩⟩
  | complete unfailed isFinished =>
      constructor
      · intro isError
        obtain ⟨failure, isError⟩ := isError
        cases isError
      · intro someFails
        obtain ⟨block, member, message, fails⟩ := someFails
        rw [unfailed block member] at fails
        cases fails

end Demux

/-- What a run over some blocks tells: a snapshot after each of them and one about the end. Whoever
looks for the latest snapshot after the run finds the last one, and no snapshot before it tells that
the run is over or that it fell back. -/
structure SplitRun.Tells (run : SplitRun) (final : Demux) (processed : List StreamBlock)
    (running : List SplitProgress) (terminal : SplitProgress) : Prop where
  published : run.published = running ++ [terminal]
  length : running.length = processed.length
  each : ∀ index, running[index]? = StreamBlock.progressAt processed index
  ending : Demux.Ending final processed run.result terminal
  stream_iff : (∃ failure, run.result = .error (.stream failure)) ↔
    ∃ block ∈ processed, ∃ message, block.failure? = some message
  rising : SplitProgress.Rising running
  latest : ∀ queue : RecentQueue SplitProgress, 0 < queue.capacity →
    (queue.pushAll run.published).latest.1 = some terminal

namespace Demux

open StreamBlock

end Demux

end Waveform
