import Waveform.Demux.Segmentation
import Waveform.Proofs.Trace.Runs

/-!
# Steps of segmentation

What taking in one trace does to the segments, case by case. Every step succeeds when all traces
have samples of one positive interval; the cases are told apart by where the trace, cut down to what
lies above the finished segments, stands to the last segment.
-/

namespace Waveform

namespace Segmentation

/-- What is left of a trace above the finished segments, if that is anything. -/
structure Remains (state : Segmentation) (trace rest : Trace) : Prop where
  cut : state.aboveFloor trace = .ok rest
  interval_eq : rest.interval = trace.interval
  nonempty : rest.samples ≠ []
  above : ∀ floor, state.floor? = some floor → floor < rest.start

theorem Remains.takenAt {state : Segmentation} {trace rest : Trace} {interval : Int}
    (remains : state.Remains trace rest) (taken : trace.TakenAt interval) :
    rest.TakenAt interval :=
  ⟨remains.nonempty, remains.interval_eq.trans taken.interval_eq⟩

/-- What taking in a trace can come to. -/
inductive Added (slack : Int) (state : Segmentation) (trace : Trace) : Segmentation → Prop where
  /-- Nothing of the trace lies above the finished segments. -/
  | skipped (rest : Trace) (cut : state.aboveFloor trace = .ok rest) (isEmpty : rest.samples = []) :
      Added slack state trace state
  /-- The last segment covers the trace. -/
  | covered (rest : Trace) (remains : state.Remains trace rest)
      (starts : state.last.start ≤ rest.start) (stops : rest.stop ≤ state.last.stop) :
      Added slack state trace state
  /-- The trace goes on where the last segment stops. -/
  | continued (rest : Trace) (remains : state.Remains trace rest)
      (behind : state.last.stop < rest.start)
      (adjacent : rest.extent.Continues state.last.extent slack) :
      Added slack state trace { state with last := state.last.append rest.samples }
  /-- The trace goes on in step with the last segment, which covers its beginning. -/
  | extended (rest : Trace) (remains : state.Remains trace rest)
      (starts : state.last.start ≤ rest.start) (meets : rest.start ≤ state.last.stop)
      (inStep : rest.extent.InStep state.last.extent slack) :
      Added slack state trace { state with
        last := state.last.append
          (rest.samples.drop (state.last.extent.coveredCount rest.extent)) }
  /-- The last segment goes on where the trace stops. -/
  | preceded (rest : Trace) (remains : state.Remains trace rest)
      (ahead : rest.stop < state.last.start)
      (adjacent : state.last.extent.Continues rest.extent slack) :
      Added slack state trace { state with last := rest.append state.last.samples }
  /-- The trace starts before the last segment and is in step with it. -/
  | led (rest : Trace) (remains : state.Remains trace rest)
      (ahead : rest.start < state.last.start) (isMet : state.last.start ≤ rest.stop)
      (inStep : rest.extent.InStep state.last.extent slack) :
      Added slack state trace { state with
        last := rest.append (state.last.samples.drop (rest.extent.coveredCount state.last.extent)) }
  /-- The trace starts after a gap. -/
  | opened (rest : Trace) (remains : state.Remains trace rest)
      (behind : state.last.stop < rest.start)
      (apart : ¬ rest.extent.Continues state.last.extent slack) :
      Added slack state trace (state.push rest)
  /-- The trace lies before the last segment without reaching it. -/
  | straggled (rest : Trace) (remains : state.Remains trace rest)
      (ahead : rest.stop < state.last.start)
      (apart : ¬ state.last.extent.Continues rest.extent slack) :
      Added slack state trace (state.push rest)
  /-- The trace is out of step and nothing of it lies behind the last segment. -/
  | discarded (rest later : Trace) (remains : state.Remains trace rest)
      (meets : rest.start ≤ state.last.stop) (isMet : state.last.start ≤ rest.stop)
      (outOfStep : ¬ rest.extent.InStep state.last.extent slack)
      (cut : rest.dropBefore (state.last.stop + 1) = .ok later) (isEmpty : later.samples = []) :
      Added slack state trace { state with corrections := state.corrections + 1 }
  /-- The trace is out of step and only what lies behind the last segment is taken. -/
  | corrected (rest later : Trace) (remains : state.Remains trace rest)
      (meets : rest.start ≤ state.last.stop) (isMet : state.last.start ≤ rest.stop)
      (outOfStep : ¬ rest.extent.InStep state.last.extent slack)
      (cut : rest.dropBefore (state.last.stop + 1) = .ok later)
      (taken : later.TakenAt trace.interval) (behind : state.last.stop < later.start) :
      Added slack state trace
        ({ state with corrections := state.corrections + 1 }.push later)

/-- Cutting a trace off at the finished segments leaves only what starts after them. -/
theorem aboveFloor_spec (state : Segmentation) {trace : Trace} (positive : 0 < trace.interval) :
    ∃ rest, state.aboveFloor trace = .ok rest ∧ rest.interval = trace.interval ∧
      (rest.samples ≠ [] → ∀ floor, state.floor? = some floor → floor < rest.start) := by
  simp only [aboveFloor]
  cases state.floor? with
  | none => exact ⟨trace, rfl, rfl, fun _ floor none => by cases none⟩
  | some floor =>
      dsimp only
      split
      next reaches =>
        obtain ⟨rest, isRest, sameInterval, above⟩ :=
          Trace.dropBefore_spec positive (show trace.start ≤ floor + 1 by omega)
        refine ⟨rest, isRest, sameInterval, ?_⟩
        intro nonempty other same
        cases same
        exact Int.lt_of_add_one_le (above nonempty)
      next above =>
        refine ⟨trace, rfl, rfl, ?_⟩
        intro _ other same
        cases same
        exact not_le.mp above

/-- What lies above the finished segments is taken in by what joining it to the last one comes
to. -/
theorem add_of_cut {state : Segmentation} {trace left : Trace} (tolerance : Tolerance)
    (cut : state.aboveFloor trace = .ok left) (nonempty : left.samples ≠ []) :
    state.add tolerance trace =
      match left.extent.joinPlan state.last.extent tolerance with
      | .ok plan => .ok { state with last := (left.applyPlan state.last plan).target }
      | .error (.notAdjacent _ _) => .ok (state.push left)
      | .error (.misaligned _ _) =>
          (left.dropBefore (state.last.stop + 1)).map fun later =>
            let corrected := { state with corrections := state.corrections + 1 }
            if later.samples = [] then corrected else corrected.push later
      | .error error => .error error := by
  simp only [add, Trace.joinTo]
  rw [cut]
  dsimp only [bind, Except.bind]
  rw [if_neg nonempty]
  cases left.extent.joinPlan state.last.extent tolerance with
  | ok plan => rfl
  | error error =>
      cases error with
      | misaligned offset interval =>
          dsimp only [Except.map]
          cases left.dropBefore (state.last.stop + 1) <;> rfl
      | notAdjacent | illegalRate | intervalMismatch | outOfRange | outOfTime | noInterval => rfl

/-- A step succeeds, in one of the ways above. -/
theorem add_cases (tolerance : Tolerance) {state : Segmentation} {trace : Trace} {interval : Int}
    (positive : 0 < interval) (last : state.last.TakenAt interval)
    (taken : trace.TakenAt interval) :
    ∃ next, state.add tolerance trace = .ok next ∧
      Added (tolerance.slack interval) state trace next := by
  obtain ⟨nonempty, rfl⟩ := taken
  obtain ⟨rest, cut, sameInterval, above⟩ := state.aboveFloor_spec positive
  simp only [add]
  rw [cut]
  dsimp only [bind, Except.bind]
  by_cases isEmpty : rest.samples = []
  · exact ⟨state, if_pos isEmpty, .skipped rest cut isEmpty⟩
  have remains : state.Remains trace rest := ⟨cut, sameInterval, isEmpty, above isEmpty⟩
  have planned : Extent.JoinCase rest.extent state.last.extent
      (tolerance.slack state.last.interval) (rest.extent.joinPlan state.last.extent tolerance) :=
    Extent.joinPlan_cases tolerance (sameInterval.trans last.interval_eq.symm)
      (by simpa [last.interval_eq] using positive) (by simpa using isEmpty)
      (by simpa using last.nonempty)
  rw [last.interval_eq] at planned
  rw [if_neg isEmpty]
  simp only [Trace.joinTo]
  generalize rest.extent.joinPlan state.last.extent tolerance = plan at planned ⊢
  cases planned with
  | after behind adjacent => exact ⟨_, rfl, .continued rest remains behind adjacent⟩
  | farAfter behind apart => exact ⟨_, rfl, .opened rest remains behind apart⟩
  | before ahead adjacent => exact ⟨_, rfl, .preceded rest remains ahead adjacent⟩
  | farBefore ahead apart => exact ⟨_, rfl, .straggled rest remains ahead apart⟩
  | within starts stops => exact ⟨_, rfl, .covered rest remains starts stops⟩
  | overlapBefore ahead isMet inStep => exact ⟨_, rfl, .led rest remains ahead isMet inStep⟩
  | overlapAfter starts meets inStep => exact ⟨_, rfl, .extended rest remains starts meets inStep⟩
  | outOfStep meets isMet outside outOfStep =>
      have restPositive : 0 < rest.interval := sameInterval ▸ positive
      have starts : rest.start ≤ state.last.stop + 1 := meets.trans (Int.le_add_one le_rfl)
      obtain ⟨later, isLater, laterInterval, behind⟩ := Trace.dropBefore_spec restPositive starts
      by_cases noneLater : later.samples = []
      · refine ⟨_, ?_, .discarded rest later remains meets isMet outOfStep isLater noneLater⟩
        simp only [Except.map, isLater]
        exact congrArg Except.ok (if_pos noneLater)
      · refine ⟨_, ?_, .corrected rest later remains meets isMet outOfStep isLater
          ⟨noneLater, laterInterval.trans sameInterval⟩
          (Int.lt_of_add_one_le (behind noneLater))⟩
        simp only [Except.map, isLater]
        exact congrArg Except.ok (if_neg noneLater)

theorem flatMap_segments (state : Segmentation) :
    state.segments.flatMap Trace.samples =
      state.finished.flatMap Trace.samples ++ state.last.samples := by
  simp [segments]

/-- Whether all segments have samples, taken at one interval. -/
def Uniform (state : Segmentation) (interval : Int) : Prop :=
  ∀ segment ∈ state.segments, segment.TakenAt interval

theorem Uniform.last {state : Segmentation} {interval : Int} (uniform : state.Uniform interval) :
    state.last.TakenAt interval :=
  uniform state.last (by simp [segments])

/-- Segments stay uniform when the last one is changed to one of the same interval. -/
theorem Uniform.withLast {state : Segmentation} {interval : Int} (uniform : state.Uniform interval)
    {segment : Trace} (taken : segment.TakenAt interval) :
    ({ state with last := segment } : Segmentation).Uniform interval := by
  intro other member
  rcases List.mem_append.mp member with finished | isLast
  · exact uniform other (List.mem_append_left _ finished)
  · rw [List.mem_singleton.mp isLast]
    exact taken

theorem Uniform.push {state : Segmentation} {interval : Int} (uniform : state.Uniform interval)
    {segment : Trace} (taken : segment.TakenAt interval) :
    (state.push segment).Uniform interval := by
  intro other member
  rcases List.mem_append.mp member with finished | isLast
  · exact uniform other finished
  · rw [List.mem_singleton.mp isLast]
    exact taken

/-- Every step keeps segments uniform. -/
theorem Added.uniform {slack : Int} {state next : Segmentation} {trace : Trace} {interval : Int}
    (added : Added slack state trace next) (uniform : state.Uniform interval)
    (taken : trace.TakenAt interval) : next.Uniform interval := by
  cases added with
  | skipped | covered => exact uniform
  | continued rest remains => exact uniform.withLast (uniform.last.append _)
  | extended rest remains => exact uniform.withLast (uniform.last.append _)
  | preceded rest remains => exact uniform.withLast ((remains.takenAt taken).append _)
  | led rest remains => exact uniform.withLast ((remains.takenAt taken).append _)
  | opened rest remains => exact uniform.push (remains.takenAt taken)
  | straggled rest remains => exact uniform.push (remains.takenAt taken)
  | discarded => exact uniform
  | corrected rest later remains meets isMet outOfStep cut laterTaken =>
      have laterTaken : later.TakenAt interval := taken.interval_eq ▸ laterTaken
      have counted : ({ state with corrections := state.corrections + 1 } : Segmentation).Uniform
        interval := uniform
      exact counted.push laterTaken

end Segmentation

end Waveform
