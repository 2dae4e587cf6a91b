import Waveform.Proofs.Trace.Runs

/-!
# Samples with their times

A trace read as the list of its samples, each with its time. Narrowing a trace to a window of time,
and reading the samples of a window or from a time on, are all the same filter of this list, however
each of them computes the indices that it keeps.
-/

namespace Waveform

/-- A filter that chooses a run of consecutive entries takes that run out of the list. -/
theorem filter_eq_take_drop {α : Type} (entries : List α) (chosen : α → Bool) (first count : Nat)
    (selects : ∀ (index : Nat) (inside : index < entries.length),
      chosen entries[index] = true ↔ first ≤ index ∧ index < first + count) :
    entries.filter chosen = (entries.drop first).take count := by
  induction entries generalizing first count with
  | nil => simp
  | cons entry later ih =>
      have laterSelects (index : Nat) (inside : index < later.length) :=
        selects (index + 1) (Nat.succ_lt_succ inside)
      have entrySelects := selects 0 (Nat.succ_pos later.length)
      simp only [List.getElem_cons_zero, List.getElem_cons_succ] at entrySelects laterSelects
      cases first with
      | zero =>
          cases count with
          | zero =>
              have isLeft : ¬ chosen entry = true := by
                rw [entrySelects]
                omega
              rw [List.filter_cons_of_neg isLeft, ih 0 0]
              · simp
              · intro index inside
                rw [laterSelects index inside]
                omega
          | succ count =>
              have isChosen : chosen entry = true := entrySelects.mpr (by omega)
              rw [List.filter_cons_of_pos isChosen, ih 0 count]
              · simp
              · intro index inside
                rw [laterSelects index inside]
                omega
      | succ first =>
          have isLeft : ¬ chosen entry = true := by
            rw [entrySelects]
            omega
          rw [List.filter_cons_of_neg isLeft, ih first count]
          · simp
          · intro index inside
            rw [laterSelects index inside]
            omega

namespace Trace

/-- The samples in order, each with its time. -/
def timed (trace : Trace) : List (Int × Int32) :=
  trace.samples.zipIdx.map fun entry => (trace.extent.timeAt entry.2, entry.1)

/-- The samples in a window of time, each with its time. -/
def timedWithin (trace : Trace) (first last : Int) : List (Int × Int32) :=
  trace.timed.filter fun entry => first ≤ entry.1 ∧ entry.1 ≤ last

/-- The samples at or after a time, each with its time. -/
def timedFrom (trace : Trace) (first : Int) : List (Int × Int32) :=
  trace.timed.filter fun entry => first ≤ entry.1

variable {trace : Trace}

@[simp] theorem length_timed (trace : Trace) : trace.timed.length = trace.samples.length := by
  simp [timed]

theorem getElem?_timed (trace : Trace) (index : Nat) :
    trace.timed[index]? = trace.samples[index]?.map (Prod.mk (trace.extent.timeAt index)) := by
  simp only [timed, List.getElem?_map, List.getElem?_zipIdx, Option.map_map, Nat.zero_add]
  rfl

theorem fst_getElem_timed {index : Nat} (inside : index < trace.timed.length) :
    trace.timed[index].1 = trace.extent.timeAt index := by
  simp [timed]

@[simp] theorem map_snd_timed (trace : Trace) : trace.timed.map Prod.snd = trace.samples := by
  rw [timed, List.map_map]
  exact List.zipIdx_map_fst 0 trace.samples

/-- A trace gives a value at a time if it is one of its samples there. -/
theorem mem_timed_iff {time : Int} {value : Int32} :
    (time, value) ∈ trace.timed ↔ trace.Gives time value := by
  simp only [timed, List.mem_map, Prod.mk.injEq, Prod.exists, List.mk_mem_zipIdx_iff_getElem?]
  constructor
  · rintro ⟨sample, index, found, isTime, rfl⟩
    exact ⟨index, found, isTime⟩
  · rintro ⟨index, found, isTime⟩
    exact ⟨value, index, found, isTime, rfl⟩

/-- The samples of a run of indices are a stretch of all samples. -/
theorem read_eq (run : IndexRun) :
    trace.read run = ((trace.timed.drop run.first).take run.count).map Prod.snd := by
  rw [List.map_take, List.map_drop, map_snd_timed]
  rfl

/-- Samples that are kept stay at their times. -/
theorem timed_keep (run : IndexRun) :
    (trace.keep run).timed = (trace.timed.drop run.first).take run.count := by
  by_cases none : run.count = 0
  · simp [timed, keep, read, none]
  · have shifted (index : Nat) :
        (trace.keep run).extent.timeAt index = trace.extent.timeAt (run.first + index) := by
      have isStart : (trace.keep run).start = trace.extent.timeAt run.first :=
        Extent.start_keep none
      simp only [Extent.timeAt, extent_start, extent_interval, isStart]
      simp only [keep, Nat.cast_add, mul_add, add_assoc]
    apply List.ext_getElem?
    intro index
    rw [getElem?_timed, shifted]
    by_cases inside : index < run.count
    · simp [keep, read, inside, getElem?_timed]
    · simp [keep, read, inside]

/-- The times of a run of indices are chosen if the run selects exactly the times that are. -/
theorem filter_timed (chosen : Int → Bool) (run : IndexRun)
    (selects : ∀ index < trace.samples.length,
      run.Selects index ↔ chosen (trace.extent.timeAt index) = true) :
    trace.timed.filter (fun entry => chosen entry.1) =
      (trace.timed.drop run.first).take run.count := by
  apply filter_eq_take_drop
  intro index inside
  rw [fst_getElem_timed]
  exact (selects index (by simpa using inside)).symm

/-! ## Windows -/

/-- Narrowing leaves the samples in the window at their times. -/
theorem timed_crop (positive : 0 < trace.interval) {first last : Int}
    (near : trace.extent.IsNear first last) :
    ∃ kept, trace.crop first last = .ok kept ∧ kept.timed = trace.timedWithin first last ∧
      kept.rate = trace.rate ∧ kept.interval = trace.interval := by
  obtain ⟨run, isCropped, selects⟩ := crop_keeps positive near
  refine ⟨trace.keep run, isCropped, ?_, rfl, rfl⟩
  rw [timed_keep]
  symm
  apply filter_timed (fun time => first ≤ time ∧ time ≤ last) run
  intro index inside
  rw [selects index]
  simp [inside]

theorem covers_iff (nonempty : trace.samples ≠ []) (first last : Int) :
    trace.extent.covers first last = true ↔
      trace.start ≤ first ∧ first ≤ last ∧ last ≤ trace.stop := by
  have sized : trace.extent.length ≠ 0 := by simpa using nonempty
  simp only [Extent.covers, Bool.and_eq_true, decide_eq_true_eq, sized, ne_eq, not_false_eq_true,
    true_and]
  change (first ≤ last ∧ trace.start ≤ first) ∧ last ≤ trace.stop ↔ _
  tauto

/-- The samples in a window are those of the indices that its ends have. -/
theorem timedWithin_eq (positive : 0 < trace.interval) (first last : Int) :
    trace.timedWithin first last = (trace.timed.drop (trace.extent.indexFrom first)).take
      (trace.extent.countUntil last - trace.extent.indexFrom first) := by
  apply filter_timed (fun time => first ≤ time ∧ time ≤ last)
    ⟨trace.extent.indexFrom first, trace.extent.countUntil last - trace.extent.indexFrom first⟩
  intro index _
  have lower : trace.extent.indexFrom first ≤ index ↔ first ≤ trace.extent.timeAt index :=
    Extent.indexFrom_le_iff positive first index
  have upper : index < trace.extent.countUntil last ↔ trace.extent.timeAt index ≤ last :=
    Extent.lt_countUntil_iff positive last index
  simp only [IndexRun.Selects, decide_eq_true_eq, ← lower, ← upper]
  omega

/-- The samples from a time on begin at the index of that time. -/
theorem timedFrom_eq (positive : 0 < trace.interval) (first : Int) :
    trace.timedFrom first = trace.timed.drop (trace.extent.indexFrom first) := by
  have fromIndex : trace.timedFrom first =
      (trace.timed.drop (trace.extent.indexFrom first)).take trace.samples.length := by
    apply filter_timed (fun time => first ≤ time)
      ⟨trace.extent.indexFrom first, trace.samples.length⟩
    intro index inside
    have lower : trace.extent.indexFrom first ≤ index ↔ first ≤ trace.extent.timeAt index :=
      Extent.indexFrom_le_iff positive first index
    simp only [IndexRun.Selects, decide_eq_true_eq, ← lower]
    omega
  rw [fromIndex]
  apply List.take_of_length_le
  simp

/-- So many samples are read from an index on if there are as many. -/
theorem slice_eq (index count : Nat) :
    trace.slice index count =
      if index + count ≤ trace.samples.length then
        .ok (((trace.timed.drop index).take count).map Prod.snd)
      else .error (.outOfRange index count trace.samples.length) := by
  by_cases enough : index + count ≤ trace.samples.length
  · have isRun : trace.extent.run index count = .ok ⟨index, count⟩ := if_pos enough
    rw [slice, isRun, if_pos enough]
    exact congrArg Except.ok (read_eq _)
  · have noRun : trace.extent.run index count =
        .error (.outOfRange index count trace.samples.length) := if_neg enough
    rw [slice, noRun, if_neg enough]
    rfl

/-- So many samples are read from a time on if the trace covers the time and has as many left from
there. -/
theorem sliceFrom_eq (positive : 0 < trace.interval) (nonempty : trace.samples ≠ [])
    (time : Int) (count : Nat) :
    trace.sliceFrom time count =
      if trace.start ≤ time ∧ time ≤ trace.stop then
        if count ≤ (trace.timedFrom time).length then
          .ok (((trace.timedFrom time).take count).map Prod.snd)
        else .error (.outOfRange (trace.samples.length - (trace.timedFrom time).length) count
          trace.samples.length)
      else .error (.outOfTime time time) := by
  have isCovered : trace.extent.covers time time = true ↔
      trace.start ≤ time ∧ time ≤ trace.stop := by
    rw [covers_iff nonempty]
    simp
  have someInterval : trace.extent.interval ≠ 0 := positive.ne'
  simp only [sliceFrom, Extent.runFrom]
  by_cases covered : trace.start ≤ time ∧ time ≤ trace.stop
  · -- the last sample is no earlier than a time that is covered
    have inside : trace.extent.indexFrom time ≤ trace.samples.length - 1 := by
      have lastTime : trace.extent.timeAt (trace.samples.length - 1) = trace.stop :=
        Extent.timeAt_last (by simpa using nonempty)
      rw [Extent.indexFrom_le_iff positive, lastTime]
      exact covered.2
    have sized : 0 < trace.samples.length := List.length_pos_iff.mpr nonempty
    rw [if_pos (isCovered.mpr covered), if_neg someInterval, if_pos covered, timedFrom_eq positive,
      List.length_drop, length_timed, Nat.sub_sub_self (by omega)]
    refine (slice_eq (trace.extent.indexFrom time) count).trans (if_congr ?_ rfl rfl)
    omega
  · rw [if_neg (mt isCovered.mp covered), if_neg covered]
    rfl

/-! ## Cutting off a beginning -/

/-- Whether a trace is what is left of another one without the samples before a time. -/
structure IsCut (rest trace : Trace) (first : Int) : Prop where
  interval_eq : rest.interval = trace.interval
  sublist : rest.samples.Sublist trace.samples
  gives_iff : ∀ time value, rest.Gives time value ↔ trace.Gives time value ∧ first ≤ time

theorem isCut_of_dropBefore {rest : Trace} {first : Int} (positive : 0 < trace.interval)
    (notBefore : trace.start ≤ first) (cut : trace.dropBefore first = .ok rest) :
    rest.IsCut trace first := by
  obtain ⟨left, isLeft, isTimed, _, sameInterval⟩ :=
    timed_crop positive (isNear_of_start_le notBefore)
  obtain rfl : left = rest := Except.ok.inj (isLeft.symm.trans cut)
  constructor
  case interval_eq => exact sameInterval
  case sublist =>
    rw [← map_snd_timed, isTimed, ← map_snd_timed]
    exact List.Sublist.map Prod.snd List.filter_sublist
  case gives_iff =>
    intro time value
    rw [← mem_timed_iff, isTimed, timedWithin, List.mem_filter, mem_timed_iff, decide_eq_true_eq]
    refine and_congr_right fun gives => and_iff_left ?_
    exact gives.le_stop positive.le

theorem IsCut.start_le {rest : Trace} {first : Int} (isCut : rest.IsCut trace first)
    (positive : 0 < trace.interval) (nonempty : rest.samples ≠ []) :
    trace.start ≤ rest.start ∧ first ≤ rest.start := by
  obtain ⟨gives, reached⟩ := (isCut.gives_iff _ _).mp (gives_start nonempty)
  exact ⟨gives.start_le positive.le, reached⟩

/-- Unless nothing is cut off, what is left starts within one interval: otherwise the sample before
its first one would be left as well. -/
theorem IsCut.start_lt {rest : Trace} {first : Int} (isCut : rest.IsCut trace first)
    (positive : 0 < trace.interval) (nonempty : rest.samples ≠ [])
    (isShorter : rest.start ≠ trace.start) : rest.start < first + trace.interval := by
  obtain ⟨⟨index, found, isTime⟩, _⟩ := (isCut.gives_iff _ _).mp (gives_start nonempty)
  obtain ⟨inside, _⟩ := List.getElem?_eq_some_iff.mp found
  cases index with
  | zero => exact absurd (by simpa [Extent.timeAt] using isTime.symm) isShorter
  | succ index =>
      have stepBack : trace.extent.timeAt index = rest.start - trace.interval := by
        rw [← isTime]
        simp only [Extent.timeAt, Nat.cast_succ, mul_add, mul_one, ← add_assoc,
          add_sub_cancel_right, extent_interval]
      have gives : trace.Gives (rest.start - trace.interval) trace.samples[index] :=
        ⟨index, List.getElem?_eq_getElem (by omega), stepBack⟩
      by_contra late
      have isLeft := (isCut.gives_iff _ _).mpr ⟨gives, by linarith⟩
      have notBefore := isLeft.start_le (isCut.interval_eq ▸ positive.le)
      linarith

end Trace

end Waveform
