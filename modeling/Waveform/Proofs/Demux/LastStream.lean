import Waveform.Proofs.Demux.Interleavings
import Waveform.Proofs.Framing.Failing

/-!
# The stream marked as the last one

The reader of one stream may be told to mark the end of the stream as the end of the run. It does so
if the stream ends. If the stream fails instead, the block at its end carries the failure and no
mark: blocks of other streams may still be on their way, and none of those ends the run either.
-/

namespace Waveform

/-- What comes before an item in a list also comes before it in a longer list, if it is not there
again further on. -/
theorem sublist_of_append_sublist {α : Type} {own before after : List α} {item : α}
    (isSublist : (own ++ [item]).Sublist (before ++ item :: after)) (notAfter : item ∉ after) :
    own.Sublist before := by
  obtain ⟨front, back, isSplit, ownInFront, itemInBack⟩ := List.append_sublist_iff.mp isSublist
  rw [List.singleton_sublist] at itemInBack
  rcases List.append_eq_append_iff.mp isSplit with isShort | isLong
  · -- The item lies in the back of what comes after itself, unless nothing stands between.
    obtain ⟨middle, rfl, isBack⟩ := isShort
    cases middle with
    | nil => simpa using ownInFront
    | cons first later =>
        injection isBack with isFirst isAfter
        subst isFirst
        exact absurd (isAfter ▸ List.mem_append_right later itemInBack) notAfter
  · obtain ⟨middle, rfl, _⟩ := isLong
    exact ownInFront.trans (List.sublist_append_left front middle)

namespace Interleaving

variable {α : Type} {lists : List (List α)} {merged : List α}

/-- An interleaving keeps the order of each list. -/
theorem sublist (interleaving : Interleaving lists merged) :
    ∀ list ∈ lists, list.Sublist merged := by
  induction interleaving with
  | done noneLeft =>
      intro list member
      rw [noneLeft list member]
  | @next before after item rest merged later ih =>
      intro list member
      rcases List.mem_append.mp member with isBefore | isBehind
      · exact (ih list (List.mem_append_left _ isBefore)).cons item
      cases isBehind with
      | head => exact (ih rest (List.mem_append_right _ List.mem_cons_self)).cons_cons item
      | tail _ isAfter =>
          have isLater := ih list (List.mem_append_right _ (List.mem_cons_of_mem rest isAfter))
          exact isLater.cons item

/-- Where the last item of one list is unlike all others, it parts the interleaving: the rest of its
list comes before it. -/
theorem exists_parts {own : List α} {item : α} {others : List (List α)}
    (interleaving : Interleaving ((own ++ [item]) :: others) merged) {isMarked : α → Bool}
    (marked : isMarked item) (ownUnmarked : ∀ other ∈ own, isMarked other = false)
    (unmarked : ∀ list ∈ others, ∀ other ∈ list, isMarked other = false) :
    ∃ before after, merged = before ++ item :: after ∧ own.Sublist before ∧
      (∀ other ∈ before, isMarked other = false) ∧ ∀ other ∈ after, isMarked other = false := by
  have isPerm : merged.Perm (item :: (own ++ others.flatten)) := by
    refine interleaving.perm.trans ?_
    rw [List.flatten_cons, List.append_assoc, List.singleton_append]
    exact List.perm_middle
  obtain ⟨before, after, isParted⟩ :=
    List.append_of_mem (isPerm.mem_iff.mpr List.mem_cons_self)
  have othersPerm : (before ++ after).Perm (own ++ others.flatten) := by
    apply List.Perm.cons_inv
    exact List.perm_middle.symm.trans (isParted ▸ isPerm)
  have noneMarked : ∀ other ∈ before ++ after, isMarked other = false := by
    intro other member
    rcases List.mem_append.mp (othersPerm.mem_iff.mp member) with isOwn | isOthers
    · exact ownUnmarked other isOwn
    · obtain ⟨list, isList, isIn⟩ := List.mem_flatten.mp isOthers
      exact unmarked list isList other isIn
  obtain ⟨beforeUnmarked, afterUnmarked⟩ := List.forall_mem_append.mp noneMarked
  refine ⟨before, after, isParted, ?_, beforeUnmarked, afterUnmarked⟩
  have inOrder := interleaving.sublist (own ++ [item]) List.mem_cons_self
  rw [isParted] at inOrder
  apply sublist_of_append_sublist inOrder
  intro isAfter
  rw [afterUnmarked item isAfter] at marked
  cases marked

end Interleaving

theorem Stretch.isEnd_of_mem_blocks {stream before : Nat} {stretches : List Stretch}
    {block : StreamBlock} (member : block ∈ blocks stream before stretches) :
    block.isEnd = false ∧ block.isLast = false := by
  cases exists_record_of_mem_blocks member with
  | intro bytes isRecord => simp [StreamBlock.isEnd, StreamBlock.isLast, isRecord]

namespace Framer

/-- The reader of a stream that is marked as the last one hands on the records among the bytes that
the stream delivers and one block at its end. However its blocks are interleaved with those of other
streams, which are not marked, this block ends the run if the stream does not fail: all blocks up to
it are processed, among them the records of the stream. If the stream fails, no block ends the run,
so that all of them are processed, and the run waits for more. -/
theorem run_marked (source : Source) (stream : Nat) (wantsDigest : Bool)
    {others : List (List StreamBlock)} {merged : List StreamBlock}
    (interleaving :
      Interleaving (((ofSource source stream wantsDigest).run true).1 :: others) merged)
    (unmarked : ∀ blocks ∈ others, ∀ block ∈ blocks, block.isLast = false) (demux : Demux) :
    ∃ stretches sentinel,
      let records := Stretch.blocks stream 0 stretches
      Division source.delivered stretches ∧
      ((ofSource source stream wantsDigest).run true).1 = records ++ [sentinel] ∧
      (∀ block ∈ records, block.isEnd = false) ∧ sentinel.isEnd ∧
      (sentinel.isLast ↔ source.Unfailing) ∧
      (source.Unfailing →
        ∃ before after, merged = before ++ sentinel :: after ∧ records.Sublist before ∧
          (demux.drain merged).2 = (demux.receiveAll (before ++ [sentinel]), after)) ∧
      (¬ source.Unfailing →
        (∀ block ∈ merged, block.continuation = .goOn) ∧
          (demux.drain merged).2 = (demux.receiveAll merged, [])) := by
  obtain ⟨stretches, division⟩ := Division.exists_division source.delivered
  let records := Stretch.blocks stream 0 stretches
  let sentinel := endBlock source stream true stretches
  have isRun : ((ofSource source stream wantsDigest).run true).1 = records ++ [sentinel] :=
    blocks_run division stream wantsDigest true
  have recordsUnmarked : ∀ block ∈ records, block.isLast = false := by
    intro block member
    exact (Stretch.isEnd_of_mem_blocks member).2
  have isLast_iff : sentinel.isLast ↔ source.Unfailing :=
    isLast_endBlock_iff source stream stretches
  rw [isRun] at interleaving
  refine ⟨stretches, sentinel, division, isRun, ?records,
    isEnd_endBlock source stream true stretches,
    isLast_iff, ?unfailing, ?failing⟩
  case records =>
    intro block member
    exact (Stretch.isEnd_of_mem_blocks member).1
  case unfailing =>
    intro unfailing
    have isLast := isLast_iff.mpr unfailing
    obtain ⟨before, after, isParted, isSublist, beforeUnmarked, _⟩ :=
      interleaving.exists_parts isLast recordsUnmarked unmarked
    refine ⟨before, after, isParted, isSublist, ?_⟩
    rw [isParted]
    exact Demux.drain_of_last beforeUnmarked isLast after
  case failing =>
    intro fails
    have notLast : sentinel.isLast = false := by
      apply Bool.eq_false_of_not_eq_true
      intro isLast
      exact fails (isLast_iff.mp isLast)
    have ownUnmarked : ∀ block ∈ records ++ [sentinel], block.isLast = false :=
      List.forall_mem_append.mpr ⟨recordsUnmarked, List.forall_mem_singleton.mpr notLast⟩
    have noneMarked : ∀ block ∈ merged, block.isLast = false :=
      interleaving.forall_mem (List.forall_mem_cons.mpr ⟨ownUnmarked, unmarked⟩)
    constructor
    · intro block member
      exact StreamBlock.continuation_eq_goOn_iff.mpr (noneMarked block member)
    · exact Demux.drain_of_noneLast noneMarked

/-- A stream that fails behind a record, in the middle of the next chunk. -/
def tornSource : Source := interruptedSource ++ [.failed "torn"]

set_option maxRecDepth 4000 in
theorem run_marked_torn :
    let torn : List StreamBlock := [⟨0, 256, .record leastRecord⟩, ⟨0, 0, .failed "torn"⟩]
    let ended : StreamBlock := ⟨1, 3, .ended false⟩
    ((ofSource tornSource 0 false).run true).1 = torn ∧
      Interleaving (torn :: [[ended]]) [⟨0, 256, .record leastRecord⟩, ended,
        ⟨0, 0, .failed "torn"⟩] ∧
      ¬ tornSource.Unfailing ∧
      ∀ block ∈ [⟨0, 256, .record leastRecord⟩, ended, ⟨0, 0, .failed "torn"⟩],
        block.continuation = .goOn := by
  intro torn ended
  have division : Division tornSource.delivered
      [.skipped (List.replicate 256 0), .record leastRecord, .skipped [1, 2, 3]] := by
    have sameBytes : tornSource.delivered = Source.contents interruptedSource := by decide +kernel
    rw [sameBytes]
    exact division_interruptedSource
  have isRun : ((ofSource tornSource 0 false).run true).1 = torn := by
    rw [blocks_run division]
    rfl
  have interleaving : Interleaving (torn :: [[ended]])
      [⟨0, 256, .record leastRecord⟩, ended, ⟨0, 0, .failed "torn"⟩] := .crossed _ _ _
  have fails : ¬ tornSource.Unfailing := by
    intro unfailing
    exact unfailing "torn" (List.mem_append_right _ List.mem_cons_self)
  have unmarked : ∀ blocks ∈ [[ended]], ∀ block ∈ blocks, block.isLast = false := by
    simp [ended, StreamBlock.isLast]
  obtain ⟨_, _, _, _, _, _, _, _, failing⟩ :=
    run_marked tornSource 0 false (isRun.symm ▸ interleaving) unmarked
      (Demux.start Selection.everything Tolerance.standard)
  exact ⟨isRun, interleaving, fails, (failing fails).1⟩

end Framer

end Waveform
