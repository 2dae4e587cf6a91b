import Waveform.Proofs.Trace.Windows

/-!
# Runs of consecutive samples

Traces give values at times. Whatever they give falls into maximal runs, whose samples follow each
other at the interval, and there is only one way to write these runs as a list of traces.
-/

namespace Waveform

/-- Times that are whole intervals from one base are whole intervals from each other. -/
theorem dvd_sub_of_base {interval base first second : Int} (firstAligned : interval ∣ first - base)
    (secondAligned : interval ∣ second - base) : interval ∣ first - second := by
  have isMultiple := Int.dvd_sub firstAligned secondAligned
  rw [sub_sub_sub_cancel_right] at isMultiple
  exact isMultiple

namespace Trace

/-- Whether a trace has samples, and these were taken at an interval. -/
structure TakenAt (trace : Trace) (interval : Int) : Prop where
  nonempty : trace.samples ≠ []
  interval_eq : trace.interval = interval

theorem TakenAt.start_le_stop {trace : Trace} {interval : Int}
    (taken : trace.TakenAt interval) (nonneg : 0 ≤ interval) : trace.start ≤ trace.stop :=
  trace.extent.start_le_stop (by simpa [taken.interval_eq] using nonneg)

/-- Samples added at the end leave a trace taken at its interval. -/
theorem TakenAt.append {trace : Trace} {interval : Int}
    (taken : trace.TakenAt interval) (samples : List Int32) :
    (trace.append samples).TakenAt interval :=
  ⟨by simp [taken.nonempty], taken.interval_eq⟩

theorem stop_eq {trace : Trace} (nonempty : trace.samples ≠ []) :
    trace.stop = trace.start + trace.interval * ((trace.samples.length : Int) - 1) :=
  trace.extent.stop_of_nonempty (by simpa using nonempty)

/-- Whether a trace has a sample of a value at a time. -/
def Gives (trace : Trace) (time : Int) (value : Int32) : Prop :=
  ∃ index, trace.samples[index]? = some value ∧ trace.extent.timeAt index = time

section

variable {trace : Trace} {time : Int} {value : Int32}

theorem Gives.start_le (gives : trace.Gives time value) (nonneg : 0 ≤ trace.interval) :
    trace.start ≤ time := by
  obtain ⟨index, _, rfl⟩ := gives
  exact Extent.start_le_timeAt nonneg index

theorem Gives.le_stop (gives : trace.Gives time value) (nonneg : 0 ≤ trace.interval) :
    time ≤ trace.stop := by
  obtain ⟨index, found, rfl⟩ := gives
  obtain ⟨inside, _⟩ := List.getElem?_eq_some_iff.mp found
  exact Extent.timeAt_le_stop nonneg inside

/-- What a trace taken at an interval gives lies between its start and its stop. -/
theorem TakenAt.bounds {interval : Int} (taken : trace.TakenAt interval) (nonneg : 0 ≤ interval)
    (gives : trace.Gives time value) : trace.start ≤ time ∧ time ≤ trace.stop := by
  have traceNonneg : 0 ≤ trace.interval := taken.interval_eq ▸ nonneg
  exact ⟨gives.start_le traceNonneg, gives.le_stop traceNonneg⟩

theorem not_gives_of_empty (isEmpty : trace.samples = []) : ¬ trace.Gives time value := by
  rintro ⟨index, found, _⟩
  simp [isEmpty] at found

/-- A trace with samples gives the first of them at its start. -/
theorem gives_start (nonempty : trace.samples ≠ []) :
    trace.Gives trace.start (trace.samples.head nonempty) := by
  refine ⟨0, ?_, ?_⟩
  · rw [← List.head?_eq_getElem?, List.head?_eq_some_head nonempty]
  · simp [Extent.timeAt]

theorem gives_timeAt_iff (positive : 0 < trace.interval) {index : Nat} :
    trace.Gives (trace.extent.timeAt index) value ↔ trace.samples[index]? = some value := by
  constructor
  · rintro ⟨other, found, sameTime⟩
    have sameIndex : (other : Int) = index :=
      mul_left_cancel₀ positive.ne' (Int.add_left_cancel sameTime)
    rw [← Int.ofNat_inj.mp sameIndex]
    exact found
  · intro found
    exact ⟨index, found, rfl⟩

/-- The times of a trace are whole intervals from its start. -/
theorem Gives.dvd (gives : trace.Gives time value) : trace.interval ∣ time - trace.start := by
  obtain ⟨index, _, rfl⟩ := gives
  exact ⟨index, by simp [Extent.timeAt]⟩

/-- A trace gives a value at each of its times. -/
theorem exists_gives (positive : 0 < trace.interval) (nonempty : trace.samples ≠ [])
    (starts : trace.start ≤ time) (stops : time ≤ trace.stop)
    (aligned : trace.interval ∣ time - trace.start) : ∃ value, trace.Gives time value := by
  obtain ⟨steps, isMultiple⟩ := aligned
  have nonneg : 0 ≤ steps := by
    by_contra negative
    have product := mul_neg_of_pos_of_neg positive (not_le.mp negative)
    omega
  obtain ⟨index, rfl⟩ := Int.eq_ofNat_of_zero_le nonneg
  have isTime : trace.extent.timeAt index = time := by
    simp only [Extent.timeAt]
    dsimp only [extent_start, extent_interval]
    omega
  have inside : index < trace.samples.length := by
    by_contra outside
    have lastTime := stop_eq nonempty
    have product := mul_le_mul_of_nonneg_left
      (show (trace.samples.length : Int) ≤ index by omega) positive.le
    rw [mul_sub, mul_one] at lastTime
    omega
  exact ⟨trace.samples[index], index, List.getElem?_eq_getElem inside, isTime⟩

/-- Where samples go that are put at the end of a trace. -/
def next (trace : Trace) : Int := trace.extent.timeAt trace.samples.length

theorem next_of_nonempty (nonempty : trace.samples ≠ []) :
    trace.next = trace.stop + trace.interval := by
  have nextTime : trace.next = trace.start + trace.interval * trace.samples.length := rfl
  rw [nextTime, stop_eq nonempty]
  ring

theorem stop_le_next (nonneg : 0 ≤ trace.interval) : trace.stop ≤ trace.next := by
  by_cases isEmpty : trace.samples = []
  · simp [stop, next, Extent.stop, Extent.timeAt, isEmpty]
  · rw [next_of_nonempty isEmpty]
    exact le_add_of_nonneg_right nonneg

/-- A time about one interval behind a trace is exactly that if it is whole intervals from its
start. -/
theorem next_eq_of_near {interval slack : Int} (taken : trace.TakenAt interval)
    (slackSmall : slack < interval) (near : |time - (trace.stop + interval)| ≤ slack)
    (aligned : interval ∣ time - trace.start) : trace.next = time := by
  have nextTime := next_of_nonempty taken.nonempty
  have nextAligned : interval ∣ trace.next - trace.start :=
    ⟨trace.samples.length, by simp [next, Extent.timeAt, taken.interval_eq]⟩
  rw [taken.interval_eq] at nextTime
  rw [← nextTime] at near
  have isMultiple := dvd_sub_of_base aligned nextAligned
  have noDistance := Int.eq_zero_of_abs_lt_dvd isMultiple (near.trans_lt slackSmall)
  omega

/-- A time behind a trace that is whole intervals from its start is no earlier than where it
goes on. -/
theorem next_le_of_stop_lt {interval : Int} (taken : trace.TakenAt interval)
    (behind : trace.stop < time) (aligned : interval ∣ time - trace.start) :
    trace.next ≤ time := by
  by_contra before
  have nextTime := next_of_nonempty taken.nonempty
  rw [taken.interval_eq] at nextTime
  have near : |time - (trace.stop + interval)| ≤ interval - 1 := abs_le.mpr ⟨by omega, by omega⟩
  exact before (next_eq_of_near taken (by omega) near aligned).le

/-- Samples at the end of a trace are given from the next time on. -/
theorem gives_append {samples : List Int32} :
    (trace.append samples).Gives time value ↔
      trace.Gives time value ∨
        ({ trace with start := trace.next, samples } : Trace).Gives time value := by
  have shifted (index : Nat) :
      trace.extent.timeAt (trace.samples.length + index) =
        trace.next + trace.interval * index := by
    simp [next, Extent.timeAt, mul_add, add_assoc]
  constructor
  · rintro ⟨index, found, isTime⟩
    rcases Nat.lt_or_ge index trace.samples.length with inside | outside
    · rw [samples_append, List.getElem?_append_left inside] at found
      exact .inl ⟨index, found, isTime⟩
    · rw [samples_append, List.getElem?_append_right outside] at found
      refine .inr ⟨index - trace.samples.length, found, ?_⟩
      have sameTime := shifted (index - trace.samples.length)
      rw [Nat.add_sub_cancel' outside] at sameTime
      exact sameTime.symm.trans isTime
  · rintro (⟨index, found, isTime⟩ | ⟨index, found, isTime⟩)
    · obtain ⟨inside, _⟩ := List.getElem?_eq_some_iff.mp found
      refine ⟨index, ?_, isTime⟩
      rw [samples_append, List.getElem?_append_left inside]
      exact found
    · refine ⟨trace.samples.length + index, ?_, ?_⟩
      · rw [samples_append, List.getElem?_append_right (Nat.le_add_right _ _),
          Nat.add_sub_cancel_left]
        exact found
      · rw [← isTime]
        exact shifted index

/-- The samples of a trace from an index on are given from the time of that index on. -/
theorem gives_drop (positive : 0 < trace.interval) (count : Nat) :
    ({ trace with
        start := trace.extent.timeAt count, samples := trace.samples.drop count } : Trace).Gives
        time value ↔
      trace.Gives time value ∧ trace.extent.timeAt count ≤ time := by
  have shifted (index : Nat) : trace.extent.timeAt (count + index) =
      trace.extent.timeAt count + trace.interval * index := by
    simp [Extent.timeAt, mul_add, add_assoc]
  constructor
  · rintro ⟨index, found, isTime⟩
    rw [List.getElem?_drop] at found
    have sameTime : trace.extent.timeAt (count + index) = time := (shifted index).trans isTime
    refine ⟨⟨count + index, found, sameTime⟩, ?_⟩
    rw [← sameTime]
    exact Extent.timeAt_mono positive.le (Nat.le_add_right count index)
  · rintro ⟨⟨index, found, rfl⟩, reached⟩
    have kept : count ≤ index := by
      by_contra before
      have product := mul_lt_mul_of_pos_left
        (show (index : Int) < count by omega) positive
      exact absurd reached (not_le.mpr (Int.add_lt_add_left product trace.start))
    refine ⟨index - count, ?_, ?_⟩
    · rw [List.getElem?_drop, Nat.add_sub_cancel' kept]
      exact found
    · have sameTime := shifted (index - count)
      rw [Nat.add_sub_cancel' kept] at sameTime
      exact sameTime.symm

end

end Trace

/-- Whether one of some traces has a sample of a value at a time. -/
def GivenBy (traces : List Trace) (time : Int) (value : Int32) : Prop :=
  ∃ trace ∈ traces, trace.Gives time value

theorem not_givenBy_nil {time : Int} {value : Int32} : ¬ GivenBy [] time value := by
  simp [GivenBy]

theorem givenBy_cons {trace : Trace} {traces : List Trace} {time : Int} {value : Int32} :
    GivenBy (trace :: traces) time value ↔ trace.Gives time value ∨ GivenBy traces time value := by
  simp [GivenBy]

theorem givenBy_append {first second : List Trace} {time : Int} {value : Int32} :
    GivenBy (first ++ second) time value ↔
      GivenBy first time value ∨ GivenBy second time value := by
  simp [GivenBy, or_and_right, exists_or]

/-- Whether traces are the maximal runs of consecutive times at which values are given, in the order
of time, each with the values that are given. -/
structure AreRuns (interval : Int) (given : Int → Int32 → Prop) (runs : List Trace) : Prop where
  taken : ∀ run ∈ runs, run.TakenAt interval
  separated : runs.Pairwise fun earlier later => earlier.stop + interval < later.start
  givenBy_iff : ∀ time value, GivenBy runs time value ↔ given time value

namespace AreRuns

variable {interval : Int} {given : Int → Int32 → Prop} {run other : Trace} {later rest : List Trace}
  {time : Int} {value : Int32}

/-- The runs are those of anything that gives the same values. -/
theorem congr {runs : List Trace} (areRuns : AreRuns interval given runs)
    {alsoGiven : Int → Int32 → Prop}
    (same : ∀ time value, given time value ↔ alsoGiven time value) :
    AreRuns interval alsoGiven runs where
  taken := areRuns.taken
  separated := areRuns.separated
  givenBy_iff := fun time value => (areRuns.givenBy_iff time value).trans (same time value)

theorem nil_iff {runs : List Trace} (areRuns : AreRuns interval given runs) :
    runs = [] ↔ ∀ time value, ¬ given time value := by
  constructor
  · rintro rfl time value isGiven
    exact not_givenBy_nil ((areRuns.givenBy_iff time value).mpr isGiven)
  · intro noneGiven
    cases runs with
    | nil => rfl
    | cons run later =>
        have starts := Trace.gives_start (areRuns.taken run List.mem_cons_self).nonempty
        have isGiven := (areRuns.givenBy_iff _ _).mp (givenBy_cons.mpr (.inl starts))
        exact absurd isGiven (noneGiven _ _)

theorem given_iff (areRuns : AreRuns interval given (run :: later)) :
    given time value ↔ run.Gives time value ∨ GivenBy later time value := by
  rw [← areRuns.givenBy_iff, givenBy_cons]

/-- What later runs give is more than one interval behind the first run. -/
theorem lt_of_later (areRuns : AreRuns interval given (run :: later)) (positive : 0 < interval)
    (isLater : GivenBy later time value) : run.stop + interval < time := by
  obtain ⟨other, member, gives⟩ := isLater
  have behind := (List.pairwise_cons.mp areRuns.separated).1 other member
  have sameInterval := (areRuns.taken other (List.mem_cons_of_mem run member)).interval_eq
  exact behind.trans_le (gives.start_le (by simpa [sameInterval] using positive.le))

/-- Nothing is given before the first run. -/
theorem start_le (areRuns : AreRuns interval given (run :: later)) (positive : 0 < interval)
    (isGiven : given time value) : run.start ≤ time := by
  have taken := areRuns.taken run List.mem_cons_self
  rcases areRuns.given_iff.mp isGiven with gives | isLater
  · exact gives.start_le (by simpa [taken.interval_eq] using positive.le)
  · have behind := areRuns.lt_of_later positive isLater
    have ordered := taken.start_le_stop positive.le
    omega

/-- The later runs are the runs of what is given behind the first one. -/
theorem tail (areRuns : AreRuns interval given (run :: later)) (positive : 0 < interval) :
    AreRuns interval (fun time value => given time value ∧ run.stop < time) later where
  taken := fun other member => areRuns.taken other (List.mem_cons_of_mem run member)
  separated := (List.pairwise_cons.mp areRuns.separated).2
  givenBy_iff := by
    intro time value
    rw [areRuns.given_iff]
    have sameInterval := (areRuns.taken run List.mem_cons_self).interval_eq
    constructor
    · intro isLater
      have behind := areRuns.lt_of_later positive isLater
      exact ⟨.inr isLater, by omega⟩
    · rintro ⟨gives | isLater, behind⟩
      · have notBehind := gives.le_stop (by simpa [sameInterval] using positive.le)
        exact absurd notBehind (not_le.mpr behind)
      · exact isLater

/-- The first runs of the same values start together. -/
theorem start_eq (areRuns : AreRuns interval given (run :: later))
    (others : AreRuns interval given (other :: rest)) (positive : 0 < interval) :
    run.start = other.start := by
  have runStarts := Trace.gives_start (areRuns.taken run List.mem_cons_self).nonempty
  have otherStarts := Trace.gives_start (others.taken other List.mem_cons_self).nonempty
  apply le_antisymm
  · exact areRuns.start_le positive (others.given_iff.mpr (.inl otherStarts))
  · exact others.start_le positive (areRuns.given_iff.mpr (.inl runStarts))

/-- A first run reaches as far as another first run of the same values: one interval behind it there
would be a value that no run gives. -/
theorem stop_le (areRuns : AreRuns interval given (run :: later))
    (others : AreRuns interval given (other :: rest)) (positive : 0 < interval) :
    run.stop ≤ other.stop := by
  obtain ⟨runNonempty, runInterval⟩ := areRuns.taken run List.mem_cons_self
  obtain ⟨otherNonempty, otherInterval⟩ := others.taken other List.mem_cons_self
  have sameStart := areRuns.start_eq others positive
  have runStop := Trace.stop_eq runNonempty
  have otherStop := Trace.stop_eq otherNonempty
  rw [runInterval] at runStop
  rw [otherInterval] at otherStop
  by_contra further
  have longer : other.samples.length < run.samples.length := by
    by_contra shorter
    have product := mul_le_mul_of_nonneg_left
      (show (run.samples.length : Int) - 1 ≤ other.samples.length - 1 by omega) positive.le
    omega
  have isNext : run.extent.timeAt other.samples.length = other.stop + interval := by
    simp only [Extent.timeAt, Trace.extent_start, Trace.extent_interval, runInterval, otherStop,
      sameStart]
    ring
  have gives : run.Gives (other.stop + interval) run.samples[other.samples.length] :=
    ⟨other.samples.length, List.getElem?_eq_getElem longer, isNext⟩
  rcases others.given_iff.mp (areRuns.given_iff.mpr (.inl gives)) with otherGives | isLater
  · have notBehind := otherGives.le_stop (by simpa [otherInterval] using positive.le)
    omega
  · have behind := others.lt_of_later positive isLater
    omega

/-- What a first run gives, another first run of the same values gives as well. -/
theorem gives_of_gives (areRuns : AreRuns interval given (run :: later))
    (others : AreRuns interval given (other :: rest)) (positive : 0 < interval)
    (gives : run.Gives time value) : other.Gives time value := by
  have sameInterval := (areRuns.taken run List.mem_cons_self).interval_eq
  have notBehind := gives.le_stop (by simpa [sameInterval] using positive.le)
  have reach := areRuns.stop_le others positive
  rcases others.given_iff.mp (areRuns.given_iff.mpr (.inl gives)) with otherGives | isLater
  · exact otherGives
  · have behind := others.lt_of_later positive isLater
    omega

theorem samples_eq (areRuns : AreRuns interval given (run :: later))
    (others : AreRuns interval given (other :: rest)) (positive : 0 < interval) :
    run.samples = other.samples := by
  have runInterval := (areRuns.taken run List.mem_cons_self).interval_eq
  have otherInterval := (others.taken other List.mem_cons_self).interval_eq
  apply List.ext_getElem?
  intro index
  have sameTime : run.extent.timeAt index = other.extent.timeAt index := by
    simp [Extent.timeAt, areRuns.start_eq others positive, runInterval, otherInterval]
  ext value
  rw [← Trace.gives_timeAt_iff (by simpa [runInterval] using positive),
    ← Trace.gives_timeAt_iff (by simpa [otherInterval] using positive), sameTime]
  constructor
  · exact areRuns.gives_of_gives others positive
  · exact others.gives_of_gives areRuns positive

/-- There is one list of runs for the values that are given: their starts and samples are the
same in any other. -/
theorem unique {runs others : List Trace} (areRuns : AreRuns interval given runs)
    (areOthers : AreRuns interval given others) (positive : 0 < interval) :
    runs.map (fun run => (run.start, run.samples)) =
      others.map fun run => (run.start, run.samples) := by
  induction runs generalizing given others with
  | nil =>
      have noOthers := areOthers.nil_iff.mpr (areRuns.nil_iff.mp rfl)
      rw [noOthers]
  | cons run later ih =>
      cases others with
      | nil =>
          have noRuns := areRuns.nil_iff.mpr (areOthers.nil_iff.mp rfl)
          cases noRuns
      | cons other rest =>
          have sameStop : run.stop = other.stop :=
            le_antisymm (areRuns.stop_le areOthers positive) (areOthers.stop_le areRuns positive)
          have restRuns := areOthers.tail positive
          rw [← sameStop] at restRuns
          rw [List.map_cons, List.map_cons, areRuns.start_eq areOthers positive,
            areRuns.samples_eq areOthers positive, ih (areRuns.tail positive) restRuns]

end AreRuns

end Waveform
