import Waveform.Coverage.Span
import Waveform.Proofs.Trace.TimedSamples

/-!
# Rows of a window

The row of a segment that covers a window is read from its first sample in the window on, as many
samples as the window counts. The segment always has enough of them. How many of them lie in the
window depends on how the grid of the segment lies to the start of the window: the last sample of
the row may come behind the end of the window.
-/

namespace Waveform

/-! ## The grid of an extent and the start of a window -/

namespace Extent

variable {extent : Extent} {time : Int}

/-- How long after a time the next sample comes, on a grid that goes on in both directions. -/
def lag (extent : Extent) (time : Int) : Int := (extent.start - time) % extent.interval

theorem lag_nonneg (positive : 0 < extent.interval) (time : Int) : 0 ≤ extent.lag time :=
  Int.emod_nonneg _ positive.ne'

theorem lag_lt (positive : 0 < extent.interval) (time : Int) :
    extent.lag time < extent.interval :=
  Int.emod_lt_of_pos _ positive

theorem timeAt_add (extent : Extent) (index count : Nat) :
    extent.timeAt (index + count) = extent.timeAt index + extent.interval * count := by
  simp only [timeAt, Nat.cast_add, mul_add, add_assoc]

/-- A whole number of intervals later, the next sample is as many samples further on. -/
theorem indexFrom_add (positive : 0 < extent.interval) (notBefore : extent.start ≤ time)
    (count : Nat) :
    extent.indexFrom (time + extent.interval * count) = extent.indexFrom time + count := by
  have shifted : time + extent.interval * count - extent.start + extent.interval - 1 =
      (time - extent.start + extent.interval - 1) + extent.interval * count := by ring
  have nonneg : 0 ≤ (time - extent.start + extent.interval - 1) / extent.interval :=
    Int.ediv_nonneg (by omega) positive.le
  rw [indexFrom, shifted, Int.add_mul_ediv_left _ _ positive.ne', indexFrom]
  omega

/-- The next sample comes less than one interval after a time. -/
theorem timeAt_indexFrom_lt (positive : 0 < extent.interval) (notBefore : extent.start ≤ time) :
    extent.timeAt (extent.indexFrom time) < time + extent.interval := by
  cases first : extent.indexFrom time with
  | zero =>
      have atStart : extent.timeAt 0 = extent.start := by simp [timeAt]
      omega
  | succ before =>
      have isBefore : ¬ time ≤ extent.timeAt before := by
        rw [← indexFrom_le_iff positive, first]
        omega
      rw [timeAt_add, Nat.cast_one, mul_one]
      omega

/-- The next sample comes after the lag. -/
theorem timeAt_indexFrom (positive : 0 < extent.interval) (notBefore : extent.start ≤ time) :
    extent.timeAt (extent.indexFrom time) = time + extent.lag time := by
  have reached : time ≤ extent.timeAt (extent.indexFrom time) :=
    (indexFrom_le_iff positive time _).mp le_rfl
  have close := timeAt_indexFrom_lt positive notBefore
  have onGrid : extent.timeAt (extent.indexFrom time) - time =
      (extent.start - time) + extent.interval * extent.indexFrom time := by
    rw [timeAt]
    ring
  have sameLag : extent.lag time = extent.timeAt (extent.indexFrom time) - time := by
    rw [lag, ← Int.add_mul_emod_self_left, ← onGrid, Int.emod_eq_of_lt (by omega) (by omega)]
  omega

end Extent

namespace Span

theorem isWithin_iff {inner outer : Span} :
    inner.isWithin outer = true ↔ outer.start ≤ inner.start ∧ inner.stop ≤ outer.stop := by
  simp [isWithin]

/-- A window reaches as many intervals as it counts samples behind the first one, and a part of one
more. -/
theorem exists_steps {window : Span} (positive : 0 < window.interval)
    (forward : window.start ≤ window.stop) :
    ∃ steps : Nat, window.sampleCount = steps + 1 ∧
      window.range = window.interval * steps + window.range % window.interval := by
  have nonneg : 0 ≤ window.range / window.interval :=
    Int.ediv_nonneg (by simpa [range] using forward) positive.le
  refine ⟨(window.range / window.interval).toNat, ?_, ?_⟩
  · rw [sampleCount, if_neg (by omega)]
    omega
  · rw [Int.toNat_of_nonneg nonneg, Int.mul_ediv_add_emod]

end Span

/-! ## The segment that covers a window -/

/-- The samples of a trace from the start of a window on, as many as the window counts. -/
def Span.rowIn (window : Span) (segment : Trace) : List Int32 :=
  ((segment.timedFrom window.start).take window.sampleCount).map Prod.snd

/-- Whether a window lies in a trace that is taken at its interval. -/
structure Span.LiesIn (window : Span) (segment : Trace) : Prop where
  positive : 0 < window.interval
  forward : window.start ≤ window.stop
  taken : segment.TakenAt window.interval
  start_le : segment.start ≤ window.start
  stop_le : window.stop ≤ segment.stop

namespace Span.LiesIn

variable {window : Span} {segment : Trace}

theorem segment_positive (lies : window.LiesIn segment) : 0 < segment.interval :=
  lies.taken.interval_eq ▸ lies.positive

theorem isWithin (lies : window.LiesIn segment) : window.isWithin segment.span :=
  isWithin_iff.mpr ⟨lies.start_le, lies.stop_le⟩

/-- The times of the samples from the window's start on. -/
theorem timeAt_row (lies : window.LiesIn segment) (column : Nat) :
    segment.extent.timeAt (segment.extent.indexFrom window.start + column) =
      window.start + segment.extent.lag window.start + window.interval * column := by
  rw [Extent.timeAt_add, Extent.timeAt_indexFrom lies.segment_positive lies.start_le,
    Trace.extent_interval, lies.taken.interval_eq]

theorem lag_lt (lies : window.LiesIn segment) :
    segment.extent.lag window.start < window.interval := by
  rw [← lies.taken.interval_eq]
  exact Extent.lag_lt lies.segment_positive window.start

/-- The segment has as many samples from the window's start on as the window counts: the last one
that is wanted comes less than one interval after the window's end. -/
theorem length_le (lies : window.LiesIn segment) :
    segment.extent.indexFrom window.start + window.sampleCount ≤ segment.timed.length := by
  obtain ⟨steps, isCount, isRange⟩ := exists_steps lies.positive lies.forward
  rw [Trace.length_timed]
  by_contra short
  have beyond : segment.extent.timeAt segment.samples.length ≤
      segment.extent.timeAt (segment.extent.indexFrom window.start + steps) :=
    Extent.timeAt_mono lies.segment_positive.le (by omega)
  have nextTime : segment.extent.timeAt segment.samples.length =
      segment.stop + segment.interval := Trace.next_of_nonempty lies.taken.nonempty
  have lagBound := lies.lag_lt
  have partNonneg := Int.emod_nonneg window.range lies.positive.ne'
  have stops := lies.stop_le
  rw [lies.timeAt_row, nextTime, lies.taken.interval_eq] at beyond
  simp only [range] at isRange partNonneg
  omega

theorem rowIn_eq (lies : window.LiesIn segment) :
    window.rowIn segment = ((segment.timed.drop (segment.extent.indexFrom window.start)).take
      window.sampleCount).map Prod.snd := by
  rw [rowIn, Trace.timedFrom_eq lies.segment_positive]

theorem length_rowIn (lies : window.LiesIn segment) :
    (window.rowIn segment).length = window.sampleCount := by
  have enough := lies.length_le
  rw [lies.rowIn_eq, List.length_map, List.length_take, List.length_drop]
  omega

/-- Reading the row of the segment succeeds. -/
theorem sliceFrom_eq (lies : window.LiesIn segment) :
    segment.sliceFrom window.start window.sampleCount = .ok (window.rowIn segment) := by
  have covered : segment.start ≤ window.start ∧ window.start ≤ segment.stop :=
    ⟨lies.start_le, lies.forward.trans lies.stop_le⟩
  have enough : window.sampleCount ≤ (segment.timedFrom window.start).length := by
    have lengths := lies.length_le
    rw [Trace.timedFrom_eq lies.segment_positive, List.length_drop]
    omega
  rw [Trace.sliceFrom_eq lies.segment_positive lies.taken.nonempty, if_pos covered, if_pos enough]
  rfl

/-- The entry of a column is the first sample that comes as many intervals after the window's start,
or later. -/
theorem getElem?_rowIn (lies : window.LiesIn segment) {column : Nat}
    (inside : column < window.sampleCount) :
    ∃ entry, (segment.timedFrom (window.start + window.interval * column)).head? = some entry ∧
      (window.rowIn segment)[column]? = some entry.2 := by
  have enough := lies.length_le
  have isIndex : segment.extent.indexFrom (window.start + window.interval * column) =
      segment.extent.indexFrom window.start + column := by
    rw [← lies.taken.interval_eq]
    exact Extent.indexFrom_add lies.segment_positive lies.start_le column
  have isInside : segment.extent.indexFrom window.start + column < segment.timed.length := by
    omega
  have isEntry := List.getElem?_eq_getElem isInside
  refine ⟨segment.timed[segment.extent.indexFrom window.start + column], ?_, ?_⟩
  · rw [Trace.timedFrom_eq lies.segment_positive, isIndex, List.head?_drop, isEntry]
  · rw [lies.rowIn_eq, List.getElem?_map, List.getElem?_take_of_lt inside, List.getElem?_drop,
      isEntry]
    rfl

/-! ## Samples of a row behind the window -/

/-- The window holds as many samples of the segment as it counts if the lag is no longer than the
part of an interval by which the window reaches beyond whole ones, and one less otherwise. -/
theorem count_within (lies : window.LiesIn segment) :
    segment.extent.countUntil window.stop - segment.extent.indexFrom window.start =
      if segment.extent.lag window.start ≤ window.range % window.interval then window.sampleCount
      else window.sampleCount - 1 := by
  obtain ⟨steps, isCount, isRange⟩ := exists_steps lies.positive lies.forward
  have lagNonneg : 0 ≤ segment.extent.lag window.start :=
    Extent.lag_nonneg lies.segment_positive window.start
  have lagBound := lies.lag_lt
  have partNonneg := Int.emod_nonneg window.range lies.positive.ne'
  have partBound := Int.emod_lt_of_pos window.range lies.positive
  have within (column : Nat) :
      segment.extent.indexFrom window.start + column < segment.extent.countUntil window.stop ↔
        segment.extent.lag window.start + window.interval * column ≤
          window.interval * steps + window.range % window.interval := by
    rw [Extent.lt_countUntil_iff lies.segment_positive, lies.timeAt_row, ← isRange, range]
    omega
  have lastWithin : segment.extent.indexFrom window.start + steps <
        segment.extent.countUntil window.stop ↔
      segment.extent.lag window.start ≤ window.range % window.interval := by
    rw [within steps]
    omega
  have noneBehind : ¬ segment.extent.indexFrom window.start + (steps + 1) <
      segment.extent.countUntil window.stop := by
    rw [within (steps + 1), Nat.cast_succ, mul_add, mul_one]
    omega
  rw [isCount]
  split
  next isShort =>
    have reached := lastWithin.mpr isShort
    omega
  next isLong =>
    have notReached := mt lastWithin.mp isLong
    -- the sample before the last one of the row, if there is one, is in the window
    cases steps with
    | zero => omega
    | succ before =>
        have beforeWithin : segment.extent.indexFrom window.start + before <
            segment.extent.countUntil window.stop := by
          rw [within before, Nat.cast_succ, mul_add, mul_one]
          omega
        omega

/-- A row consists of the samples in the window and at most one sample more, which comes less than
one interval behind the window. -/
theorem exists_overrun (lies : window.LiesIn segment) :
    ∃ overrun : List (Int × Int32),
      window.rowIn segment =
        (segment.timedWithin window.start window.stop ++ overrun).map Prod.snd ∧
      (overrun = [] ↔ segment.extent.lag window.start ≤ window.range % window.interval) ∧
      overrun.length ≤ 1 ∧ ∀ entry ∈ overrun, entry ∈ segment.timed ∧
        window.stop < entry.1 ∧ entry.1 < window.stop + window.interval := by
  have isWithin := Trace.timedWithin_eq lies.segment_positive window.start window.stop
  rw [lies.count_within] at isWithin
  by_cases isShort : segment.extent.lag window.start ≤ window.range % window.interval
  · rw [if_pos isShort] at isWithin
    refine ⟨[], ?_, iff_of_true rfl isShort, Nat.zero_le 1, by simp⟩
    rw [isWithin, List.append_nil]
    exact lies.rowIn_eq
  · rw [if_neg isShort] at isWithin
    obtain ⟨steps, isCount, isRange⟩ := exists_steps lies.positive lies.forward
    have lagBound := lies.lag_lt
    have isInside : segment.extent.indexFrom window.start + steps < segment.timed.length := by
      have enough := lies.length_le
      omega
    let last := segment.timed[segment.extent.indexFrom window.start + steps]
    have isLast : (segment.timed.drop (segment.extent.indexFrom window.start))[steps]? =
        some last := by
      rw [List.getElem?_drop]
      exact List.getElem?_eq_getElem isInside
    have lastTime : last.1 = window.start + segment.extent.lag window.start +
        window.interval * steps :=
      (Trace.fst_getElem_timed isInside).trans (lies.timeAt_row steps)
    refine ⟨[last], ?_, iff_of_false (List.cons_ne_nil _ _) isShort, le_rfl, ?_⟩
    · rw [lies.rowIn_eq, isWithin, isCount, Nat.add_sub_cancel, List.take_add_one, isLast]
      rfl
    · intro entry member
      obtain rfl := List.mem_singleton.mp member
      refine ⟨List.getElem_mem isInside, ?_, ?_⟩
      · rw [lastTime]
        simp only [range] at isRange isShort
        omega
      · rw [lastTime]
        have partNonneg := Int.emod_nonneg window.range lies.positive.ne'
        simp only [range] at isRange isShort partNonneg
        omega

end Span.LiesIn

end Waveform
