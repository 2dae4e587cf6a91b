import Waveform.Demux.StoredSegmentation
import Waveform.Proofs.Demux.SegmentSteps
import Waveform.Proofs.Demux.StoredTracks
import Waveform.Proofs.Storage.Splicing

/-!
# Segments formed in a pool simulate plain segments

Traces of a positive interval are formed into segments in a pool as plain traces are. The gap before
a new segment can always be measured in intervals, and every block that is no longer needed can be
given back.
-/

namespace Waveform

variable {blockSizes : List Nat} {pools : List Pool} {rest : List (StoredTrace × Trace)}

/-- An operation simulates a plain one that succeeds if that holds of what it goes on with. -/
theorem Simulates.after {α β γ : Type} {operation : Stored α} {result : α} {changed : List Pool}
    (isResult : operation pools = (.ok result, changed)) {next : α → Stored γ} {value : β}
    {related : γ → β → List Pool → Prop}
    (simulates : Simulates (next result) changed (.ok value) related) :
    Simulates (operation >>= next) pools (.ok value) related := by
  simp only [Simulates] at simulates ⊢
  rw [Process.bind_of_ok isResult]
  exact simulates

/-- A gap between two extents is measured in the interval of the source. -/
theorem Extent.interval_of_notAdjacent {source target : Extent} {tolerance : Tolerance}
    {gap interval : Int}
    (isError : source.joinPlan target tolerance = .error (.notAdjacent gap interval)) :
    interval = source.interval := by
  simp only [joinPlan, sameInterval] at isError
  by_cases same : source.interval = target.interval
  · simp only [same, if_true, bind, Except.bind] at isError ⊢
    repeat' split at isError
    all_goals cases isError
    all_goals rfl
  · simp only [same, if_false, bind, Except.bind] at isError
    cases isError

/-- An extent that is out of step with another one does not start behind it. -/
theorem Extent.start_le_of_misaligned {source target : Extent} {tolerance : Tolerance}
    {offset interval : Int}
    (isError : source.joinPlan target tolerance = .error (.misaligned offset interval)) :
    source.start ≤ target.stop := by
  by_contra behind
  simp only [joinPlan, sameInterval] at isError
  by_cases same : source.interval = target.interval
  · simp only [same, if_true, bind, Except.bind] at isError
    rw [if_pos (not_le.mp behind)] at isError
    repeat' split at isError
    all_goals cases isError
  · simp only [same, if_false, bind, Except.bind] at isError
    cases isError

/-- Segments that are formed in a pool beside the plain ones: each is given together with the plain
one. -/
structure PairedSegmentation where
  finished : List (StoredTrace × Trace)
  last : StoredTrace × Trace
  corrections : Nat

namespace PairedSegmentation

def stored (state : PairedSegmentation) : StoredSegmentation :=
  ⟨state.finished.map Prod.fst, state.last.1, state.corrections⟩

def plain (state : PairedSegmentation) : Segmentation :=
  ⟨state.finished.map Prod.snd, state.last.2, state.corrections⟩

/-- All segments, the last one first. -/
def entries (state : PairedSegmentation) : List (StoredTrace × Trace) :=
  state.last :: state.finished

/-- All segments, in order. -/
def segments (state : PairedSegmentation) : List (StoredTrace × Trace) :=
  state.finished ++ [state.last]

theorem stored_segments (state : PairedSegmentation) :
    state.stored.segments = state.segments.map Prod.fst := by
  simp [stored, segments, StoredSegmentation.segments]

theorem plain_segments (state : PairedSegmentation) :
    state.plain.segments = state.segments.map Prod.snd := by
  simp [plain, segments, Segmentation.segments]

/-- Finish the last segment and go on with another one. -/
def push (state : PairedSegmentation) (segment : StoredTrace × Trace) : PairedSegmentation :=
  { state with finished := state.finished ++ [state.last], last := segment }

theorem stored_push (state : PairedSegmentation) (segment : StoredTrace × Trace) :
    (state.push segment).stored = state.stored.push segment.1 := by
  simp [stored, push, StoredSegmentation.push]

theorem plain_push (state : PairedSegmentation) (segment : StoredTrace × Trace) :
    (state.push segment).plain = state.plain.push segment.2 := by
  simp [plain, push, Segmentation.push]

theorem holds_push {state : PairedSegmentation} {segment : StoredTrace × Trace}
    (holds : Holds blockSizes pools (segment :: (state.entries ++ rest))) :
    Holds blockSizes pools ((state.push segment).entries ++ rest) := by
  apply holds.perm
  refine List.Perm.cons segment (List.Perm.append_right rest ?_)
  exact (List.perm_append_singleton state.last state.finished).symm

/-- Whether pools hold segments as the plain ones are. -/
def Forms (blockSizes : List Nat) (rest : List (StoredTrace × Trace))
    (formed : StoredSegmentation) (plainFormed : Segmentation) (pools : List Pool) : Prop :=
  ∃ state : PairedSegmentation, state.stored = formed ∧ state.plain = plainFormed ∧
    Holds blockSizes pools (state.entries ++ rest)

section

variable {state : PairedSegmentation} {trace : StoredTrace} {plainTrace : Trace}

theorem floor?_eq (holds : Holds blockSizes pools (state.entries ++ rest)) :
    state.stored.floor? = state.plain.floor? := by
  simp only [StoredSegmentation.floor?, Segmentation.floor?, stored, plain, List.getLast?_map,
    Option.map_map]
  cases isLatest : state.finished.getLast? with
  | none => rfl
  | some entry =>
      have isFinished : entry ∈ state.finished := List.mem_of_getLast? isLatest
      have describes := holds.describes entry
        (List.mem_append_left rest (List.mem_cons_of_mem state.last isFinished))
      simp [describes.stop_eq]

theorem aboveFloor_simulates
    (holds : Holds blockSizes pools ((trace, plainTrace) :: (state.entries ++ rest))) :
    Simulates (state.stored.aboveFloor trace) pools
      ((state.plain.aboveFloor plainTrace).mapError .trace)
      fun left plainLeft changed =>
        Holds blockSizes changed ((left, plainLeft) :: (state.entries ++ rest)) := by
  have stateHolds : Holds blockSizes pools (state.entries ++ (trace, plainTrace) :: rest) :=
    holds.perm List.perm_middle.symm
  simp only [StoredSegmentation.aboveFloor, Segmentation.aboveFloor]
  rw [floor?_eq stateHolds, holds.describes_head.start]
  cases state.plain.floor? with
  | none => exact simulates_pure holds
  | some floor =>
      dsimp only
      split
      next => exact StoredTrace.dropBefore_simulates holds (floor + 1)
      next => exact simulates_pure holds

/-- What lies above the finished segments is taken in as the plain trace is. -/
theorem addAbove_simulates
    (holds : Holds blockSizes pools ((trace, plainTrace) :: (state.entries ++ rest)))
    (positive : 0 < plainTrace.interval) {whole : Trace}
    (cut : state.plain.aboveFloor whole = .ok plainTrace) (nonempty : plainTrace.samples ≠ [])
    (tolerance : Tolerance) :
    Simulates (state.stored.addAbove tolerance trace) pools
      ((state.plain.add tolerance whole).mapError .trace) (Forms blockSizes rest) := by
  have lastDescribes : state.last.1.Describes state.last.2 :=
    holds.describes state.last (by simp [entries])
  rw [Segmentation.add_of_cut tolerance cut nonempty]
  simp only [StoredSegmentation.addAbove, stored, plain]
  rw [holds.describes_head.extent_eq, lastDescribes.extent_eq]
  cases planned : plainTrace.extent.joinPlan state.last.2.extent tolerance with
  | ok plan =>
      obtain ⟨joined, between, isJoined, joinedHolds⟩ :=
        StoredTrace.applyPlan_simulates holds plan
      obtain ⟨changed, isDropped, droppedHolds⟩ := StoredTrace.discard_spec joinedHolds
      apply Simulates.after isJoined
      apply Simulates.after isDropped
      exact simulates_pure ⟨{ state with last := (joined.target, _) }, rfl, rfl, droppedHolds⟩
  | error error =>
      cases error with
      | notAdjacent gap interval =>
          have sameInterval := Extent.interval_of_notAdjacent planned
          have measured : (discard (Stored.lift (intervalsIn gap interval)) : Stored Unit) pools =
              (.ok (), pools) := by
            have nonzero : interval ≠ 0 := by
              rw [sameInterval]
              exact positive.ne'
            simp only [intervalsIn]
            rw [if_neg nonzero]
            rfl
          apply Simulates.after measured
          exact simulates_pure ⟨state.push (trace, plainTrace), stored_push state _,
            plain_push state _, holds_push holds⟩
      | misaligned offset interval =>
          have starts : plainTrace.start ≤ state.last.2.stop + 1 :=
            (Extent.start_le_of_misaligned planned).trans (Int.le_add_one le_rfl)
          obtain ⟨plainLater, isPlainLater, _⟩ := Trace.dropBefore_spec positive starts
          have dropped := StoredTrace.dropBefore_simulates holds (state.last.2.stop + 1)
          rw [isPlainLater] at dropped
          obtain ⟨later, between, isLater, laterHolds⟩ := dropped
          have sameEmpty := laterHolds.describes_head.length_eq_zero_iff
          let corrected : PairedSegmentation := { state with corrections := state.corrections + 1 }
          rw [isPlainLater, lastDescribes.stop_eq]
          dsimp only [Except.map, Except.mapError]
          apply Simulates.after isLater
          by_cases isEmpty : plainLater.samples = []
          · obtain ⟨changed, isDropped, droppedHolds⟩ := StoredTrace.discard_spec laterHolds
            rw [if_pos (sameEmpty.mpr isEmpty), if_pos isEmpty]
            apply Simulates.after isDropped
            exact simulates_pure ⟨corrected, rfl, rfl, droppedHolds⟩
          · rw [if_neg (mt sameEmpty.mp isEmpty), if_neg isEmpty]
            exact simulates_pure ⟨corrected.push (later, plainLater), stored_push corrected _,
              plain_push corrected _, holds_push laterHolds⟩
      | illegalRate | intervalMismatch | outOfRange | outOfTime | noInterval => rfl

/-- A trace of a positive interval is taken in as the plain one is, where that is possible. -/
theorem add_simulates
    (holds : Holds blockSizes pools ((trace, plainTrace) :: (state.entries ++ rest)))
    (positive : 0 < plainTrace.interval) {tolerance : Tolerance} {plainNext : Segmentation}
    (isPlainNext : state.plain.add tolerance plainTrace = .ok plainNext) :
    Simulates (state.stored.add tolerance trace) pools (.ok plainNext) (Forms blockSizes rest) := by
  obtain ⟨plainLeft, cut, sameInterval, _⟩ := state.plain.aboveFloor_spec positive
  have isCut := aboveFloor_simulates holds
  rw [cut] at isCut
  obtain ⟨left, between, isLeft, leftHolds⟩ := isCut
  have sameEmpty := leftHolds.describes_head.length_eq_zero_iff
  simp only [StoredSegmentation.add]
  apply Simulates.after isLeft
  by_cases isEmpty : plainLeft.samples = []
  · obtain ⟨changed, isDropped, droppedHolds⟩ := StoredTrace.discard_spec leftHolds
    have unchanged : state.plain.add tolerance plainTrace = .ok state.plain := by
      simp only [Segmentation.add]
      rw [cut]
      exact if_pos isEmpty
    rw [unchanged] at isPlainNext
    cases isPlainNext
    rw [if_pos (sameEmpty.mpr isEmpty)]
    apply Simulates.after isDropped
    exact simulates_pure ⟨state, rfl, rfl, droppedHolds⟩
  · have added := addAbove_simulates leftHolds (sameInterval ▸ positive) cut isEmpty tolerance
    rw [isPlainNext] at added
    rw [if_neg (mt sameEmpty.mp isEmpty)]
    exact added

/-- Traces of one positive interval are taken in, one after the other, as the plain ones are. -/
theorem foldlM_add_spec (tolerance : Tolerance) (traces : List (StoredTrace × Trace))
    {interval : Int} (holds : Holds blockSizes pools (traces ++ (state.entries ++ rest)))
    (positive : 0 < interval) (uniform : state.plain.Uniform interval)
    (taken : ∀ trace ∈ traces, trace.2.TakenAt interval) :
    ∃ (final : PairedSegmentation) (changed : List Pool),
      (traces.map Prod.fst).foldlM (StoredSegmentation.add tolerance) state.stored pools =
        (.ok final.stored, changed) ∧
      (traces.map Prod.snd).foldlM (Segmentation.add tolerance) state.plain = .ok final.plain ∧
      Holds blockSizes changed (final.entries ++ rest) := by
  induction traces generalizing state pools with
  | nil => exact ⟨state, pools, rfl, rfl, holds⟩
  | cons trace later ih =>
      have traceTaken := taken trace List.mem_cons_self
      obtain ⟨plainNext, isPlainNext, added⟩ :=
        Segmentation.add_cases tolerance positive uniform.last traceTaken
      have front : Holds blockSizes pools (trace :: (state.entries ++ (later ++ rest))) := by
        apply holds.perm
        exact (List.perm_append_comm_assoc later state.entries rest).cons trace
      have step := add_simulates front (traceTaken.interval_eq ▸ positive) isPlainNext
      obtain ⟨_, between, isNext, next, rfl, rfl, nextHolds⟩ := step
      have nextFront : Holds blockSizes between (later ++ (next.entries ++ rest)) :=
        nextHolds.perm (List.perm_append_comm_assoc next.entries later rest)
      obtain ⟨final, changed, isFinal, isPlainFinal, finalHolds⟩ := ih nextFront
        (added.uniform uniform traceTaken)
        (fun other member => taken other (List.mem_cons_of_mem trace member))
      refine ⟨final, changed, ?_, ?_, finalHolds⟩
      · rw [List.map_cons, List.foldlM_cons, Process.bind_of_ok isNext]
        exact isFinal
      · rw [List.map_cons, List.foldlM_cons, isPlainNext]
        exact isPlainFinal

end

end PairedSegmentation

/-- Traces of one positive interval are formed into segments as the plain ones are. -/
theorem segmentStoredTraces_spec (tolerance : Tolerance) (traces : List (StoredTrace × Trace))
    {interval : Int} (holds : Holds blockSizes pools (traces ++ rest)) (positive : 0 < interval)
    (taken : ∀ trace ∈ traces, trace.2.TakenAt interval) :
    ∃ (segments : List (StoredTrace × Trace)) (corrections : Nat) (changed : List Pool),
      segmentStoredTraces tolerance (traces.map Prod.fst) pools =
        (.ok (segments.map Prod.fst, corrections), changed) ∧
      segmentTraces tolerance (traces.map Prod.snd) = .ok (segments.map Prod.snd, corrections) ∧
      Holds blockSizes changed (segments ++ rest) := by
  obtain ⟨sorted, isPerm, isSorted, isPlainSorted, _⟩ := StoredTrace.exists_sorted traces
    fun entry member => holds.describes entry (List.mem_append_left rest member)
  have sortedTaken : ∀ trace ∈ sorted, trace.2.TakenAt interval :=
    fun trace member => taken trace (isPerm.mem_iff.mp member)
  have sortedHolds := holds.perm (isPerm.symm.append_right rest)
  simp only [segmentStoredTraces, segmentTraces]
  rw [isSorted, isPlainSorted]
  cases sorted with
  | nil => exact ⟨[], 0, pools, rfl, rfl, sortedHolds⟩
  | cons first later =>
      let begun : PairedSegmentation := ⟨[], first, 0⟩
      have uniform : begun.plain.Uniform interval := by
        intro segment member
        rw [List.mem_singleton.mp member]
        exact sortedTaken first List.mem_cons_self
      have begunHolds : Holds blockSizes pools (later ++ (begun.entries ++ rest)) :=
        sortedHolds.perm List.perm_middle.symm
      obtain ⟨final, changed, isFinal, isPlainFinal, finalHolds⟩ :=
        PairedSegmentation.foldlM_add_spec tolerance later begunHolds positive uniform
          fun trace member => sortedTaken trace (List.mem_cons_of_mem first member)
      refine ⟨final.segments, final.corrections, changed, ?_, ?_, ?_⟩
      · rw [← final.stored_segments]
        exact Process.bind_of_ok isFinal _
      · rw [← final.plain_segments]
        exact congrArg (Except.map fun state => (state.segments, state.corrections)) isPlainFinal
      · exact finalHolds.perm ((List.perm_append_singleton _ _).symm.append_right rest)

end Waveform
