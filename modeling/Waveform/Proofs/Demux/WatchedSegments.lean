import Waveform.Proofs.Demux.SegmentCover
import Waveform.Proofs.Demux.WatchedRuns

/-!
# Segments in sixty-four bits

Forming the traces of a track into segments is watched as processing is. A trace that is cut or
joined to the end of the last segment does not make this reach much further than either of them.
Joined to the end of a trace, though, the last segment may move by up to an interval to later times,
and again with the next trace. This comes to an end as each time its start gets earlier: what it can
still be moved by is kept in reserve.
-/

namespace Waveform

open Watched

/-! ## Watched segmentation -/

namespace Segmentation

end Segmentation

namespace Demux

end Demux

/-! ## How far joined traces reach -/

namespace Trace

variable {trace first second rest : Trace} {interval time : Int}

/-- Samples that are put at the end of a trace, and not much before the time they had, reach no more
than an interval further than before. -/
theorem stop_append_drop_le_max {count : Nat} (firstTaken : first.TakenAt interval)
    (secondTaken : second.TakenAt interval) (near : first.stop - second.start ≤ interval * count) :
    (first.append (second.samples.drop count)).stop ≤ max first.stop (second.stop + interval) := by
  have joinedStop := stop_eq (firstTaken.append (second.samples.drop count)).nonempty
  have firstStop := stop_eq firstTaken.nonempty
  have secondStop := stop_eq secondTaken.nonempty
  change _ = first.start + first.interval * _ at joinedStop
  rw [samples_append, List.length_append, List.length_drop, Nat.cast_add, mul_sub, mul_add,
    mul_one] at joinedStop
  rw [mul_sub, mul_one] at firstStop secondStop
  rw [firstTaken.interval_eq] at joinedStop firstStop
  rw [secondTaken.interval_eq] at secondStop
  rcases Nat.lt_or_ge count second.samples.length with fewer | all
  · rw [Nat.cast_sub fewer.le, mul_sub] at joinedStop
    exact le_max_of_le_right (by linarith)
  · rw [Nat.sub_eq_zero_of_le all, Nat.cast_zero, mul_zero] at joinedStop
    exact le_max_of_le_left (by linarith)

/-- What is cut off a trace makes it reach no further. -/
theorem IsCut.stop_le (isCut : rest.IsCut trace time) (positive : 0 < trace.interval)
    (nonempty : rest.samples ≠ []) : rest.stop ≤ trace.stop := by
  have restPositive : 0 < rest.interval := isCut.interval_eq ▸ positive
  have order : rest.start ≤ rest.stop := Extent.start_le_stop rest.extent restPositive.le
  have aligned : rest.interval ∣ rest.stop - rest.start := by
    rw [stop_eq nonempty, add_sub_cancel_left]
    exact dvd_mul_right _ _
  obtain ⟨value, gives⟩ := exists_gives restPositive nonempty order le_rfl aligned
  exact ((isCut.gives_iff _ _).mp gives).1.le_stop positive.le

end Trace

namespace Segmentation

variable {state next : Segmentation} {trace : Trace} {interval slack latest limit : Int}

/-- Whether the segments stay within a limit even when the last one is moved as far as it can be. -/
structure StaysBelow (state : Segmentation) (interval latest limit : Int) : Prop where
  uniform : state.Uniform interval
  starts : ∀ segment ∈ state.segments, -2 ^ 52 ≤ segment.start
  stops : ∀ segment ∈ state.segments, segment.stop ≤ limit
  reserve : state.last.stop + interval * state.play interval 0 latest ≤ limit

/-- Whether a trace may be taken in: it is late enough and there is room for two intervals behind it
and for as many as an interval has microseconds. -/
structure Admits (interval latest limit : Int) (trace : Trace) : Prop where
  taken : trace.TakenAt interval
  ordered : latest ≤ trace.start
  start : -2 ^ 52 ≤ trace.start
  stop : trace.stop + interval + interval * interval ≤ limit

theorem Remains.bounds {rest : Trace} (remains : state.Remains trace rest)
    (positive : 0 < trace.interval) : trace.start ≤ rest.start ∧ rest.stop ≤ trace.stop := by
  rcases aboveFloor_cases positive remains.cut with ⟨rfl, _⟩ | ⟨_, _, _, isCut⟩
  · exact ⟨le_rfl, le_rfl⟩
  · exact ⟨(isCut.start_le positive remains.nonempty).1, isCut.stop_le positive remains.nonempty⟩

/-- What is put in the place of the last segment has to leave the reserve. -/
theorem StaysBelow.withLast (below : state.StaysBelow interval latest limit)
    (positive : 0 < interval) {segment : Trace} {other : Int} (taken : segment.TakenAt interval)
    (start : -2 ^ 52 ≤ segment.start)
    (reserve : segment.stop +
      interval * ({ state with last := segment } : Segmentation).play interval 0 other ≤ limit) :
    ({ state with last := segment } : Segmentation).StaysBelow interval other limit := by
  have playNonneg : 0 ≤ ({ state with last := segment } : Segmentation).play interval 0 other :=
    play_nonneg positive le_rfl
  have room := mul_nonneg positive.le playNonneg
  refine ⟨below.uniform.withLast taken, ?_, ?_, reserve⟩
  · intro other member
    rcases List.mem_append.mp member with finished | isLast
    · exact below.starts other (List.mem_append_left _ finished)
    · rwa [List.mem_singleton.mp isLast]
  · intro other member
    rcases List.mem_append.mp member with finished | isLast
    · exact below.stops other (List.mem_append_left _ finished)
    · rw [List.mem_singleton.mp isLast]
      linarith

theorem StaysBelow.last_start (below : state.StaysBelow interval latest limit) :
    -2 ^ 52 ≤ state.last.start :=
  below.starts state.last (by simp [segments])

section

variable (below : state.StaysBelow interval latest limit) (positive : 0 < interval)
  (admits : Admits interval latest limit trace)

include below positive admits

theorem StaysBelow.unchanged : state.StaysBelow interval trace.start limit := by
  have shrinks : state.play interval 0 trace.start ≤ state.play interval 0 latest :=
    play_anti admits.ordered
  have product := mul_le_mul_of_nonneg_left shrinks positive.le
  have reserve := below.reserve
  exact ⟨below.uniform, below.starts, below.stops, by linarith⟩

theorem StaysBelow.push {segment : Trace} (taken : segment.TakenAt interval)
    (start : trace.start ≤ segment.start) (stop : segment.stop ≤ trace.stop) :
    (state.push segment).StaysBelow interval trace.start limit := by
  have isLimited := admits.stop
  have product := mul_nonneg positive.le positive.le
  refine ⟨below.uniform.push taken, ?_, ?_, ?_⟩
  · intro other member
    rcases List.mem_append.mp member with finished | isLast
    · exact below.starts other finished
    · rw [List.mem_singleton.mp isLast]
      exact admits.start.trans start
  · intro other member
    rcases List.mem_append.mp member with finished | isLast
    · exact below.stops other finished
    · rw [List.mem_singleton.mp isLast]
      change segment.stop ≤ limit
      linarith
  · have atMost : (state.push segment).play interval 0 trace.start ≤ interval + 0 := play_le
    rw [add_zero] at atMost
    have product := mul_le_mul_of_nonneg_left atMost positive.le
    change segment.stop + _ ≤ limit
    linarith

/-- Samples that are put at the end of the last segment leave its start where it is. -/
theorem StaysBelow.append {rest : Trace} (remains : state.Remains trace rest) {count : Nat}
    (near : state.last.stop - rest.start ≤ interval * count) :
    ({ state with last := state.last.append (rest.samples.drop count) } : Segmentation).StaysBelow
      interval trace.start limit := by
  have isLimited := admits.stop
  have restStop := (remains.bounds (admits.taken.interval_eq ▸ positive)).2
  have atMost : state.play interval 0 trace.start ≤ interval + 0 := play_le
  have product := mul_le_mul_of_nonneg_left atMost positive.le
  have reserve := (below.unchanged positive admits).reserve
  have further :=
    Trace.stop_append_drop_le_max below.uniform.last (remains.takenAt admits.taken) near
  apply below.withLast positive (below.uniform.last.append _) below.last_start
  change _ + interval * state.play interval 0 trace.start ≤ limit
  rcases le_max_iff.mp further with noFurther | reaches <;> linarith

/-- Joined to the end of what is taken of a trace, the last segment moves by an interval at most,
and it starts earlier. -/
theorem StaysBelow.prepend {rest : Trace} (remains : state.Remains trace rest) {count : Nat}
    (ahead : rest.start < state.last.start)
    (near : rest.stop - state.last.start ≤ interval * count) :
    ({ state with last := rest.append (state.last.samples.drop count) } : Segmentation).StaysBelow
      interval trace.start limit := by
  have tracePositive : 0 < trace.interval := admits.taken.interval_eq ▸ positive
  have isLimited := admits.stop
  have reserve := below.reserve
  have restTaken := remains.takenAt admits.taken
  obtain ⟨restStart, restStop⟩ := remains.bounds tracePositive
  obtain ⟨notBefore, within⟩ := remains.start_bounds tracePositive
  rw [admits.taken.interval_eq] at within
  have noEarlier : state.earliest latest ≤ state.earliest trace.start :=
    earliest_mono admits.ordered
  have further := Trace.stop_append_drop_le_max restTaken below.uniform.last near
  apply below.withLast positive (restTaken.append _) (admits.start.trans restStart)
  generalize isPlay : Segmentation.play _ interval 0 trace.start = playLeft
  have atMost : playLeft ≤ rest.start - state.earliest trace.start := by
    rw [← isPlay]
    exact (min_le_left _ _).trans (max_eq_left (sub_nonneg.mpr notBefore)).le
  have playBefore : playLeft + 1 ≤ state.play interval 0 latest := by
    apply le_min
    · exact le_max_of_le_left (by omega)
    · omega
  have product := mul_le_mul_of_nonneg_left playBefore positive.le
  have productLeft := mul_le_mul_of_nonneg_left (show playLeft ≤ interval by omega) positive.le
  rw [mul_add, mul_one] at product
  rcases le_max_iff.mp further with noFurther | reaches <;> linarith

end

end Segmentation

/-! ## Segmentation gives what is watched -/

theorem Trace.TakenAt.inReach {segment : Trace} {interval : Int} (taken : segment.TakenAt interval)
    (positive : 0 < interval) (short : interval ≤ 2 ^ 30) (start : -2 ^ 52 ≤ segment.start)
    (stop : segment.stop ≤ 2 ^ 62 + 2 ^ 61) : segment.extent.InReach where
  positive := by simpa [taken.interval_eq] using positive
  short := by simpa [taken.interval_eq] using short
  notEarly := start
  notLate := stop

namespace Segmentation

variable {state next : Segmentation} {trace : Trace} {interval latest : Int} {tolerance : Tolerance}

section

variable (below : state.StaysBelow interval latest (2 ^ 62 + 2 ^ 61)) (positive : 0 < interval)
  (short : interval ≤ 2 ^ 30) (admits : Admits interval latest (2 ^ 62 + 2 ^ 61) trace)

include below positive short

theorem StaysBelow.inReach {segment : Trace} (member : segment ∈ state.segments) :
    segment.extent.InReach :=
  (below.uniform segment member).inReach positive short (below.starts segment member)
    (below.stops segment member)

include admits

end

end Segmentation

namespace Demux

end Demux

end Waveform
