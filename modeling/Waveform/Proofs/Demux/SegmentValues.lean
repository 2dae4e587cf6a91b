import Waveform.Proofs.Demux.Reassembly

/-!
# Segments and the values of their samples

How traces are formed into segments depends on where their samples lie, and not on what values these
have. If the values of all samples are changed in one way, those of the segments change in the same
way, and nothing else does. So aligned traces that have samples at the same times are formed into
segments that lie in the same places, even if the traces do not agree.
-/

namespace Waveform

section

variable (change : Int32 → Int32)

namespace Trace

/-- The trace with the value of every sample changed. -/
def mapSamples (trace : Trace) : Trace := { trace with samples := trace.samples.map change }

@[simp] theorem extent_mapSamples (trace : Trace) :
    (trace.mapSamples change).extent = trace.extent := by
  simp [extent, mapSamples]

@[simp] theorem stop_mapSamples (trace : Trace) : (trace.mapSamples change).stop = trace.stop :=
  congrArg Extent.stop (trace.extent_mapSamples change)

@[simp] theorem samples_mapSamples_eq_nil_iff {trace : Trace} :
    (trace.mapSamples change).samples = [] ↔ trace.samples = [] :=
  List.map_eq_nil_iff

theorem dropBefore_mapSamples (trace : Trace) (first : Int) :
    (trace.mapSamples change).dropBefore first =
      (trace.dropBefore first).map (mapSamples change) := by
  simp only [dropBefore, crop, stop_mapSamples, extent_mapSamples]
  cases trace.extent.runWithin first trace.stop with
  | error error => rfl
  | ok kept => simp [Except.map, keep, read, mapSamples, extent]

theorem target_applyPlan_mapSamples (source target : Trace) (plan : JoinPlan) :
    ((source.mapSamples change).applyPlan (target.mapSamples change) plan).target =
      (source.applyPlan target plan).target.mapSamples change := by
  cases plan <;> simp [applyPlan, append, mapSamples]

end Trace

namespace Segmentation

/-- The segments with the value of every sample changed. -/
def mapSamples (state : Segmentation) : Segmentation :=
  ⟨state.finished.map (Trace.mapSamples change), state.last.mapSamples change, state.corrections⟩

@[simp] theorem floor?_mapSamples (state : Segmentation) :
    (state.mapSamples change).floor? = state.floor? := by
  simp [floor?, mapSamples, Function.comp_def]

theorem segments_mapSamples (state : Segmentation) :
    (state.mapSamples change).segments = state.segments.map (Trace.mapSamples change) := by
  simp [segments, mapSamples]

theorem push_mapSamples (state : Segmentation) (segment : Trace) :
    (state.mapSamples change).push (segment.mapSamples change) =
      (state.push segment).mapSamples change := by
  simp [push, mapSamples]

theorem aboveFloor_mapSamples (state : Segmentation) (trace : Trace) :
    (state.mapSamples change).aboveFloor (trace.mapSamples change) =
      (state.aboveFloor trace).map (Trace.mapSamples change) := by
  simp only [aboveFloor, floor?_mapSamples]
  cases state.floor? with
  | none => rfl
  | some floor =>
      have sameStart : (trace.mapSamples change).start = trace.start := rfl
      dsimp only
      rw [sameStart]
      split
      next => exact trace.dropBefore_mapSamples change (floor + 1)
      next => rfl

/-- A trace is taken in alike, whatever values its samples have. -/
theorem add_mapSamples (tolerance : Tolerance) (state : Segmentation) (trace : Trace) :
    (state.mapSamples change).add tolerance (trace.mapSamples change) =
      (state.add tolerance trace).map (mapSamples change) := by
  have sameCut := state.aboveFloor_mapSamples change trace
  cases cut : state.aboveFloor trace with
  | error error =>
      rw [cut] at sameCut
      simp only [add]
      rw [sameCut, cut]
      rfl
  | ok rest =>
      rw [cut] at sameCut
      by_cases isEmpty : rest.samples = []
      · simp only [add]
        rw [sameCut, cut]
        simp [Except.map, bind, Except.bind, isEmpty, pure, Except.pure]
      · have nonempty : (rest.mapSamples change).samples ≠ [] := by simpa using isEmpty
        have sameLast : (state.mapSamples change).last = state.last.mapSamples change := rfl
        rw [add_of_cut tolerance sameCut nonempty, add_of_cut tolerance cut isEmpty, sameLast,
          Trace.extent_mapSamples, Trace.extent_mapSamples, Trace.stop_mapSamples]
        cases rest.extent.joinPlan state.last.extent tolerance with
        | ok plan =>
            dsimp only
            rw [Trace.target_applyPlan_mapSamples]
            rfl
        | error error =>
            cases error with
            | notAdjacent gap interval =>
                dsimp only
                rw [push_mapSamples]
                rfl
            | misaligned offset interval =>
                dsimp only
                rw [Trace.dropBefore_mapSamples]
                cases rest.dropBefore (state.last.stop + 1) with
                | error error => rfl
                | ok later =>
                    let corrected : Segmentation :=
                      { state with corrections := state.corrections + 1 }
                    have isPushed := corrected.push_mapSamples change later
                    simp only [Except.map, Trace.samples_mapSamples_eq_nil_iff, Except.ok.injEq]
                    split
                    next => rfl
                    next => exact isPushed
            | illegalRate | intervalMismatch | outOfRange | outOfTime | noInterval => rfl

/-- Traces are taken in alike, whatever values their samples have. -/
theorem foldlM_add_mapSamples (tolerance : Tolerance) (state : Segmentation)
    (traces : List Trace) :
    (traces.map (Trace.mapSamples change)).foldlM (add tolerance) (state.mapSamples change) =
      (traces.foldlM (add tolerance) state).map (mapSamples change) := by
  induction traces generalizing state with
  | nil => rfl
  | cons trace later ih =>
      rw [List.map_cons, List.foldlM_cons, List.foldlM_cons, add_mapSamples]
      cases state.add tolerance trace with
      | error error => rfl
      | ok next => exact ih next

end Segmentation

/-- The same segments are formed whatever values the samples of the traces have. -/
theorem segmentTraces_mapSamples (tolerance : Tolerance) (traces : List Trace) :
    segmentTraces tolerance (traces.map (Trace.mapSamples change)) =
      (segmentTraces tolerance traces).map fun formed =>
        (formed.1.map (Trace.mapSamples change), formed.2) := by
  have sameOrder : (traces.map (Trace.mapSamples change)).mergeSort Trace.startsBy =
      (traces.mergeSort Trace.startsBy).map (Trace.mapSamples change) := by
    refine (List.map_mergeSort ?_).symm
    exact fun _ _ _ _ => rfl
  simp only [segmentTraces]
  rw [sameOrder]
  cases traces.mergeSort Trace.startsBy with
  | nil => rfl
  | cons first later =>
      have folded := Segmentation.foldlM_add_mapSamples change tolerance ⟨[], first, 0⟩ later
      simp only [List.map_cons]
      refine (congrArg (Except.map _) folded).trans ?_
      cases later.foldlM (Segmentation.add tolerance) ⟨[], first, 0⟩ with
      | error error => rfl
      | ok final =>
          simp only [Except.map]
          rw [Segmentation.segments_mapSamples]
          rfl

end

/-! ## Where segments lie -/

namespace Trace

/-- The trace with all samples set to zero. -/
def blank (trace : Trace) : Trace := trace.mapSamples fun _ => 0

theorem gives_blank_iff {trace : Trace} {time : Int} {value : Int32} :
    trace.blank.Gives time value ↔ value = 0 ∧ ∃ other, trace.Gives time other := by
  simp only [Gives, blank, extent_mapSamples]
  simp only [mapSamples, List.getElem?_map, Option.map_eq_some_iff]
  constructor
  · rintro ⟨index, ⟨other, found, rfl⟩, sameTime⟩
    exact ⟨rfl, other, index, found, sameTime⟩
  · rintro ⟨rfl, other, index, found, sameTime⟩
    exact ⟨index, ⟨other, found, rfl⟩, sameTime⟩

theorem TakenAt.blank {trace : Trace} {interval : Int} (taken : trace.TakenAt interval) :
    trace.blank.TakenAt interval :=
  ⟨by simpa [Trace.blank] using taken.nonempty, taken.interval_eq⟩

end Trace

theorem givenBy_blank_iff {traces : List Trace} {time : Int} {value : Int32} :
    GivenBy (traces.map Trace.blank) time value ↔
      value = 0 ∧ ∃ other, GivenBy traces time other := by
  simp only [GivenBy, List.mem_map, exists_exists_and_eq_and, Trace.gives_blank_iff]
  grind

section

variable {tolerance : Tolerance} {interval base : Int} {traces segments : List Trace}
  {corrections : Nat}

/-- The segments of aligned traces lie where the runs lie of what these give, were it always
zero. -/
theorem blank_areRuns (positive : 0 < interval) (slackSmall : tolerance.slack interval < interval)
    (taken : ∀ trace ∈ traces, trace.TakenAt interval)
    (aligned : ∀ trace ∈ traces, interval ∣ trace.start - base)
    (formed : segmentTraces tolerance traces = .ok (segments, corrections)) :
    AreRuns interval (GivenBy (traces.map Trace.blank)) (segments.map Trace.blank) := by
  have blankTaken : ∀ trace ∈ traces.map Trace.blank, trace.TakenAt interval := by
    intro trace member
    obtain ⟨former, isFormer, rfl⟩ := List.mem_map.mp member
    exact (taken former isFormer).blank
  have blankAligned : ∀ trace ∈ traces.map Trace.blank, interval ∣ trace.start - base := by
    intro trace member
    obtain ⟨former, isFormer, rfl⟩ := List.mem_map.mp member
    exact aligned former isFormer
  obtain ⟨blankSegments, _, blankFormed, areRuns, _⟩ :=
    segmentTraces_areRuns tolerance positive slackSmall blankTaken blankAligned (by
      intro time value other isGiven alsoGiven
      rw [(givenBy_blank_iff.mp isGiven).1, (givenBy_blank_iff.mp alsoGiven).1])
  have sameSegments := segmentTraces_mapSamples (fun _ => 0) tolerance traces
  rw [formed] at sameSegments
  have isSame := Except.ok.inj (sameSegments.symm.trans blankFormed)
  rw [Prod.mk.injEq] at isSame
  rw [← isSame.1] at areRuns
  exact areRuns

/-- Aligned traces that give something at the same times are formed into segments that lie in the
same places. -/
theorem segmentTraces_extents_eq {others otherSegments : List Trace} {otherCorrections : Nat}
    (positive : 0 < interval) (slackSmall : tolerance.slack interval < interval)
    (taken : ∀ trace ∈ traces, trace.TakenAt interval)
    (othersTaken : ∀ trace ∈ others, trace.TakenAt interval)
    (aligned : ∀ trace ∈ traces, interval ∣ trace.start - base)
    (othersAligned : ∀ trace ∈ others, interval ∣ trace.start - base)
    (same : ∀ time, (∃ value, GivenBy traces time value) ↔ ∃ value, GivenBy others time value)
    (formed : segmentTraces tolerance traces = .ok (segments, corrections))
    (othersFormed : segmentTraces tolerance others = .ok (otherSegments, otherCorrections)) :
    segments.map Trace.extent = otherSegments.map Trace.extent := by
  have areRuns := blank_areRuns positive slackSmall taken aligned formed
  have otherRuns := blank_areRuns positive slackSmall othersTaken othersAligned othersFormed
  have sameBlank := (areRuns.congr fun time value => by
    rw [givenBy_blank_iff, same, ← givenBy_blank_iff]).unique otherRuns positive
  have extents (list : List Trace) (listTaken : ∀ trace ∈ list.map Trace.blank,
      trace.TakenAt interval) :
      list.map Trace.extent = ((list.map Trace.blank).map fun trace =>
        (trace.start, trace.samples)).map fun content =>
          ⟨content.1, interval, content.2.length⟩ := by
    rw [List.map_map, List.map_map]
    apply List.map_congr_left
    intro trace member
    have sameInterval := (listTaken trace.blank (List.mem_map_of_mem member)).interval_eq
    simp only [Function.comp_apply, Trace.extent]
    rw [← sameInterval]
    simp [Trace.blank, Trace.mapSamples]
  rw [extents segments areRuns.taken, extents otherSegments otherRuns.taken, sameBlank]

end

end Waveform
