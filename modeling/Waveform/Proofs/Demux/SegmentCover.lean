import Waveform.Proofs.Demux.StoredSegments
import Waveform.Proofs.Trace.TimedSamples
import Waveform.Total

/-!
# What segments stand for

Forming segments leaves out samples: those that reach back into a finished segment, those that the
last segment covers, and of a trace that is out of step all that do not lie behind the last segment.
Still each of them lies within two intervals of a segment. What has to be bounded for this is how
far the last segment is moved to earlier times when it is joined to the end of a trace: at each join
by no more than the slack, and by no more than its start is moved, which gets no earlier than the
traces still to come may start.
-/

namespace Waveform

namespace Trace

variable {first second segment : Trace} {interval slack time : Int}

/-- Whether a time lies within two intervals of a trace. -/
def StandsFor (interval : Int) (segment : Trace) (time : Int) : Prop :=
  segment.start - 2 * interval ≤ time ∧ time ≤ segment.stop + 2 * interval

theorem standsFor_of_behind (nonneg : 0 ≤ interval) (taken : segment.TakenAt interval)
    (behind : segment.stop ≤ time) (near : time ≤ segment.stop + 2 * interval) :
    segment.StandsFor interval time := by
  have order := taken.start_le_stop nonneg
  exact ⟨by linarith, near⟩

/-- More samples at its end move the stop of a trace to a later time. -/
theorem stop_le_append (nonneg : 0 ≤ interval) (taken : first.TakenAt interval)
    (samples : List Int32) : first.stop ≤ (first.append samples).stop := by
  rw [stop_eq taken.nonempty, stop_eq (taken.append samples).nonempty]
  change _ ≤ first.start + first.interval * _
  rw [taken.interval_eq, samples_append, List.length_append, Nat.cast_add]
  have product := mul_nonneg nonneg (Int.natCast_nonneg samples.length)
  linarith

/-- Samples that are put at the end of a trace about where they lay reach about as far as before. -/
theorem abs_stop_append_drop_le {count : Nat} (positive : 0 < interval)
    (slackSmall : 2 * slack < interval) (firstTaken : first.TakenAt interval)
    (secondTaken : second.TakenAt interval)
    (near : |first.stop + first.interval - second.start - first.interval * count| ≤ slack) :
    |(first.append (second.samples.drop count)).stop - max first.stop second.stop| ≤ slack := by
  obtain ⟨nonempty, rfl⟩ := firstTaken
  have joined : (first.append (second.samples.drop count)).extent.length =
      first.extent.length + (second.extent.length - count) := by simp
  exact Extent.stop_of_continued secondTaken.interval_eq.symm positive slackSmall
    (by simpa using nonempty) (by simpa using secondTaken.nonempty) near rfl rfl joined

/-- What an overlap in step covers of a trace ends about where the other trace would go on. -/
theorem near_of_inStep (positive : 0 < interval) (slackSmall : 2 * slack < interval)
    (firstTaken : first.TakenAt interval) (meets : second.start ≤ first.stop)
    (inStep : second.extent.InStep first.extent slack) :
    |first.stop + first.interval - second.start -
      first.interval * (first.extent.coveredCount second.extent : Nat)| ≤ slack := by
  obtain ⟨nonempty, rfl⟩ := firstTaken
  have rounded := Extent.coversAbout_coveredCount first.extent second.extent positive meets
  have near := Extent.near_of_coversAbout (by simpa using nonempty) positive slackSmall rounded
    inStep
  exact near

/-- If a trace stops less than one interval before another one, its start is as far ahead: else the
two would differ in length, and then by a whole interval. -/
theorem stop_sub_le_start_sub (positive : 0 < interval) (firstTaken : first.TakenAt interval)
    (secondTaken : second.TakenAt interval) (ordered : first.start ≤ second.start)
    (close : second.stop - first.stop < interval) :
    second.stop - first.stop ≤ second.start - first.start := by
  have firstStop := stop_eq firstTaken.nonempty
  have secondStop := stop_eq secondTaken.nonempty
  rw [firstTaken.interval_eq, mul_sub, mul_one] at firstStop
  rw [secondTaken.interval_eq, mul_sub, mul_one] at secondStop
  rcases Nat.lt_or_ge first.samples.length second.samples.length with longer | notLonger
  · have product := mul_le_mul_of_nonneg_left
      (show (first.samples.length : Int) + 1 ≤ second.samples.length by omega) positive.le
    rw [mul_add, mul_one] at product
    linarith
  · have product := mul_le_mul_of_nonneg_left
      (show (second.samples.length : Int) ≤ first.samples.length by omega) positive.le
    linarith

end Trace

namespace Segmentation

section

variable {state next : Segmentation} {trace rest segment : Trace} {traces : List Trace}
  {interval slack latest other time : Int} {value : Int32}

/-! ## What is taken of a trace -/

/-- The time from which on samples are taken of traces that start no earlier than a latest one. -/
def earliest (state : Segmentation) (latest : Int) : Int :=
  match state.floor? with
  | none => latest
  | some floor => max latest (floor + 1)

/-- Whether a time is no later than some segment. -/
def Reaches (state : Segmentation) (time : Int) : Prop :=
  time ≤ state.last.stop ∨ ∃ floor, state.floor? = some floor ∧ time ≤ floor

theorem earliest_mono (ordered : latest ≤ other) :
    state.earliest latest ≤ state.earliest other := by
  simp only [earliest]
  cases state.floor? with
  | none => exact ordered
  | some floor => exact max_le_max_right _ ordered

/-- A trace is taken whole if it starts above the finished segments, or cut off there. -/
theorem aboveFloor_cases (positive : 0 < trace.interval) (cut : state.aboveFloor trace = .ok rest) :
    (rest = trace ∧ state.earliest trace.start = trace.start) ∨
      ∃ floor, state.floor? = some floor ∧ trace.start ≤ floor ∧ rest.IsCut trace (floor + 1) := by
  simp only [aboveFloor] at cut
  simp only [earliest]
  cases isFloor : state.floor? with
  | none =>
      rw [isFloor] at cut
      exact .inl ⟨(Except.ok.inj cut).symm, rfl⟩
  | some floor =>
      rw [isFloor] at cut
      dsimp only at cut ⊢
      split at cut
      next reaches =>
        exact .inr ⟨floor, rfl, reaches, Trace.isCut_of_dropBefore positive (by omega) cut⟩
      next above => exact .inl ⟨(Except.ok.inj cut).symm, max_eq_left (by omega)⟩

theorem sublist_of_cut (positive : 0 < trace.interval) (cut : state.aboveFloor trace = .ok rest) :
    rest.samples.Sublist trace.samples := by
  rcases aboveFloor_cases positive cut with ⟨rfl, _⟩ | ⟨_, _, _, isCut⟩
  · exact List.Sublist.refl _
  · exact isCut.sublist

/-- What is not taken of a trace is no later than the finished segments. -/
theorem reaches_or_gives (positive : 0 < trace.interval)
    (cut : state.aboveFloor trace = .ok rest) (gives : trace.Gives time value) :
    state.Reaches time ∨ rest.Gives time value := by
  rcases aboveFloor_cases positive cut with ⟨rfl, _⟩ | ⟨floor, isFloor, _, isCut⟩
  · exact .inr gives
  · rcases le_or_gt time floor with notAbove | above
    · exact .inl (.inr ⟨floor, isFloor, notAbove⟩)
    · exact .inr ((isCut.gives_iff time value).mpr ⟨gives, above⟩)

/-- What is taken of a trace starts within one interval of the earliest time. -/
theorem Remains.start_bounds (remains : state.Remains trace rest) (positive : 0 < trace.interval) :
    state.earliest trace.start ≤ rest.start ∧
      rest.start < state.earliest trace.start + trace.interval := by
  rcases aboveFloor_cases positive remains.cut with ⟨rfl, isUncut⟩ | ⟨floor, isFloor, behind, isCut⟩
  · rw [isUncut]
    exact ⟨le_rfl, by linarith⟩
  · have above := (isCut.start_le positive remains.nonempty).2
    have isEarliest : state.earliest trace.start = floor + 1 := by
      simp only [earliest, isFloor]
      exact max_eq_right (by omega)
    rw [isEarliest]
    exact ⟨above, isCut.start_lt positive remains.nonempty (by omega)⟩

/-- Where a trace is cut off, a finished segment is near. -/
theorem Remains.reaches_or_near (remains : state.Remains trace rest) (positive : 0 < interval)
    (uniform : state.Uniform interval) (taken : trace.TakenAt interval)
    (notBefore : trace.start ≤ time) (isCutOff : time < rest.start) :
    state.Reaches time ∨ ∃ segment ∈ state.finished, segment.StandsFor interval time := by
  have tracePositive : 0 < trace.interval := taken.interval_eq ▸ positive
  rcases aboveFloor_cases tracePositive remains.cut with ⟨rfl, _⟩ | ⟨floor, isFloor, behind, isCut⟩
  · exact absurd isCutOff (not_lt.mpr notBefore)
  · rcases le_or_gt time floor with notAbove | above
    · exact .inl (.inr ⟨floor, isFloor, notAbove⟩)
    · have startsWithin := isCut.start_lt tracePositive remains.nonempty
        (by have := remains.above floor isFloor; omega)
      rw [taken.interval_eq] at startsWithin
      obtain ⟨segment, isLatest, rfl⟩ := Option.map_eq_some_iff.mp isFloor
      have member : segment ∈ state.finished := List.mem_of_getLast? isLatest
      refine .inr ⟨segment, member, Trace.standsFor_of_behind positive.le ?_ above.le ?_⟩
      · exact uniform segment (List.mem_append_left _ member)
      · omega

/-! ## Times that are kept -/

/-- How far the last segment can still be moved to earlier times. Its start can be moved back to the
earliest time; once it is within one interval of that, it is moved by the slack at most. -/
def play (state : Segmentation) (interval slack latest : Int) : Int :=
  min (max (state.last.start - state.earliest latest) 0) (interval + slack)

/-- Whether a segment stands for a time, even when the last one is moved as far as it can be. -/
def Keeps (state : Segmentation) (interval slack latest time : Int) : Prop :=
  (∃ segment ∈ state.finished, segment.StandsFor interval time) ∨
    state.last.start ≤ time ∧
      time ≤ state.last.stop + 2 * interval - state.play interval slack latest

theorem play_nonneg (positive : 0 < interval) (slack_nonneg : 0 ≤ slack) :
    0 ≤ state.play interval slack latest :=
  le_min (le_max_right _ _) (add_nonneg positive.le slack_nonneg)

theorem play_le : state.play interval slack latest ≤ interval + slack := min_le_right _ _

theorem play_anti (ordered : latest ≤ other) :
    state.play interval slack other ≤ state.play interval slack latest :=
  min_le_min_right _ (max_le_max_right _ (sub_le_sub_left (earliest_mono ordered) _))

/-- The last segment stands for what is not before it and not much behind it. -/
theorem keeps_of_last (slackSmall : 2 * slack < interval) (starts : state.last.start ≤ time)
    (near : time ≤ state.last.stop + slack) : state.Keeps interval slack latest time := by
  have bounded : state.play interval slack latest ≤ interval + slack := play_le
  exact .inr ⟨starts, by linarith⟩

theorem Keeps.standsFor (keeps : state.Keeps interval slack latest time) (positive : 0 < interval)
    (slack_nonneg : 0 ≤ slack) : ∃ segment ∈ state.segments, segment.StandsFor interval time := by
  rcases keeps with ⟨segment, member, stands⟩ | ⟨starts, near⟩
  · exact ⟨segment, List.mem_append_left _ member, stands⟩
  · have movable : 0 ≤ state.play interval slack latest := play_nonneg positive slack_nonneg
    exact ⟨state.last, by simp [segments], by linarith, by linarith⟩

/-- What was kept is kept as a segment is added. -/
theorem Keeps.push (keeps : state.Keeps interval slack latest time) (positive : 0 < interval)
    (slack_nonneg : 0 ≤ slack) : (state.push segment).Keeps interval slack other time :=
  .inl (keeps.standsFor positive slack_nonneg)

theorem Keeps.later (keeps : state.Keeps interval slack latest time) (ordered : latest ≤ other) :
    state.Keeps interval slack other time := by
  rcases keeps with isFinished | ⟨starts, near⟩
  · exact .inl isFinished
  · have shrinks : state.play interval slack other ≤ state.play interval slack latest :=
      play_anti ordered
    exact .inr ⟨starts, by linarith⟩

/-- What was kept is kept as the last segment grows at its end. -/
theorem Keeps.withLast (keeps : state.Keeps interval slack latest time)
    (sameStart : segment.start = state.last.start) (longer : state.last.stop ≤ segment.stop) :
    ({ state with last := segment } : Segmentation).Keeps interval slack latest time := by
  rcases keeps with isFinished | ⟨starts, near⟩
  · exact .inl isFinished
  · have samePlay : ({ state with last := segment } : Segmentation).play interval slack latest =
        state.play interval slack latest := by
      simp only [play]
      rw [sameStart]
      rfl
    refine .inr ⟨sameStart.le.trans starts, ?_⟩
    rw [samePlay]
    dsimp only
    linarith

/-- What was kept is kept as the last segment is joined to the end of what is taken of a trace. The
stop moves no further than the start, and so no further than the start can be moved any less. -/
theorem Keeps.withEarlierLast (keeps : state.Keeps interval slack latest time)
    (ordered : latest ≤ trace.start) (remains : state.Remains trace rest) (positive : 0 < interval)
    (taken : trace.TakenAt interval) (sameStart : segment.start = rest.start)
    (notLater : rest.start ≤ state.last.start) (moved : state.last.stop - segment.stop ≤ slack)
    (startMoved : state.last.stop - segment.stop ≤ state.last.start - rest.start) :
    ({ state with last := segment } : Segmentation).Keeps interval slack trace.start time := by
  rcases keeps with isFinished | ⟨starts, near⟩
  · exact .inl isFinished
  · obtain ⟨notBefore, within⟩ := remains.start_bounds (taken.interval_eq ▸ positive)
    rw [taken.interval_eq] at within
    have noEarlier : state.earliest latest ≤ state.earliest trace.start := earliest_mono ordered
    have playLeft : ({ state with last := segment } : Segmentation).play interval slack
        trace.start ≤ rest.start - state.earliest trace.start := by
      refine (min_le_left _ _).trans ?_
      rw [sameStart]
      exact (max_eq_left (sub_nonneg.mpr notBefore)).le
    -- the play loses what the start is moved by, or it was at its bound and less than an interval
    -- of it is left
    have playBefore : rest.start - state.earliest trace.start +
        (state.last.stop - segment.stop) ≤ state.play interval slack latest := by
      apply le_min
      · exact le_max_of_le_left (by linarith)
      · linarith
    refine .inr ⟨sameStart.le.trans (notLater.trans starts), ?_⟩
    dsimp only
    linarith

/-! ## Steps -/

/-- Whether segments keep all times that some traces give, and all that they reach from the start of
the latest of these traces on. -/
structure Covers (state : Segmentation) (interval slack latest : Int) (traces : List Trace) :
    Prop where
  uniform : state.Uniform interval
  reached : ∀ time, latest ≤ time → state.Reaches time → state.Keeps interval slack latest time
  given : ∀ time value, GivenBy traces time value → state.Keeps interval slack latest time

section

variable (covers : state.Covers interval slack latest traces) (positive : 0 < interval)
  (taken : trace.TakenAt interval) (ordered : latest ≤ trace.start)

include covers positive taken ordered

/-- A step covers its trace if it keeps what was kept, and all that it reaches anew or the trace
gives beyond what was reached. -/
theorem Covers.step (uniform : next.Uniform interval)
    (keeps : ∀ time, state.Keeps interval slack latest time →
      next.Keeps interval slack trace.start time)
    (reaches : ∀ time, trace.start ≤ time → next.Reaches time →
      state.Reaches time ∨ next.Keeps interval slack trace.start time)
    (gives : ∀ time value, trace.Gives time value →
      state.Reaches time ∨ next.Keeps interval slack trace.start time) :
    next.Covers interval slack trace.start (traces ++ [trace]) := by
  have kept (time : Int) (notBefore : trace.start ≤ time)
      (either : state.Reaches time ∨ next.Keeps interval slack trace.start time) :
      next.Keeps interval slack trace.start time := by
    rcases either with isReached | isKept
    · exact keeps time (covers.reached time (ordered.trans notBefore) isReached)
    · exact isKept
  constructor
  case uniform => exact uniform
  case reached =>
    intro time notBefore isReached
    exact kept time notBefore (reaches time notBefore isReached)
  case given =>
    intro time value isGiven
    rcases givenBy_append.mp isGiven with isOld | isNew
    · exact keeps time (covers.given time value isOld)
    · rw [givenBy_cons, or_iff_left not_givenBy_nil] at isNew
      exact kept time (taken.bounds positive.le isNew).1 (gives time value isNew)

/-- A trace that gives nothing beyond what is reached need not be taken. -/
theorem Covers.unchanged (gives : ∀ time value, trace.Gives time value → state.Reaches time) :
    state.Covers interval slack trace.start (traces ++ [trace]) := by
  apply covers.step positive taken ordered covers.uniform
  · intro time keeps
    exact keeps.later ordered
  · intro time _ isReached
    exact .inl isReached
  · intro time value isGiven
    exact .inl (gives time value isGiven)

variable (slack_nonneg : 0 ≤ slack) (slackSmall : 2 * slack < interval)

include slack_nonneg slackSmall

/-- A trace is covered by a last segment that grows to about its stop. -/
theorem Covers.withLast (remains : state.Remains trace rest)
    (segmentTaken : segment.TakenAt interval)
    (keeps : ∀ time, state.Keeps interval slack latest time →
      ({ state with last := segment } : Segmentation).Keeps interval slack trace.start time)
    (notLater : segment.start ≤ state.last.start) (near : rest.stop ≤ segment.stop + slack) :
    ({ state with last := segment } : Segmentation).Covers interval slack trace.start
      (traces ++ [trace]) := by
  have lastOrder := covers.uniform.last.start_le_stop positive.le
  have reachesOrKeeps (time : Int) (notBehind : time ≤ segment.stop + slack) :
      state.Reaches time ∨
        ({ state with last := segment } : Segmentation).Keeps interval slack trace.start time := by
    rcases le_or_gt time state.last.stop with isReached | behind
    · exact .inl (.inl isReached)
    · exact .inr (keeps_of_last slackSmall (notLater.trans (lastOrder.trans behind.le)) notBehind)
  apply covers.step positive taken ordered (covers.uniform.withLast segmentTaken) keeps
  · rintro time _ (notBehind | isFloor)
    · exact reachesOrKeeps time (notBehind.trans (le_add_of_nonneg_right slack_nonneg))
    · exact .inl (.inr isFloor)
  · intro time value isGiven
    rcases reaches_or_gives (taken.interval_eq ▸ positive) remains.cut isGiven
      with isReached | restGives
    · exact .inl isReached
    · have notBehind := ((remains.takenAt taken).bounds positive.le restGives).2
      exact reachesOrKeeps time (notBehind.trans near)

/-- A trace is covered if the last segment goes on with samples of it about where these lay. -/
theorem Covers.append (remains : state.Remains trace rest) {count : Nat}
    (near : |state.last.stop + state.last.interval - rest.start -
      state.last.interval * count| ≤ slack) :
    ({ state with last := state.last.append (rest.samples.drop count) } : Segmentation).Covers
      interval slack trace.start (traces ++ [trace]) := by
  have longer := Trace.stop_le_append positive.le covers.uniform.last (rest.samples.drop count)
  have stopNear := (abs_le.mp (Trace.abs_stop_append_drop_le positive slackSmall
    covers.uniform.last (remains.takenAt taken) near)).1
  have restStop := le_max_right state.last.stop rest.stop
  apply covers.withLast positive taken ordered slack_nonneg slackSmall remains
    (covers.uniform.last.append _)
  · intro time keeps
    exact (keeps.later ordered).withLast rfl longer
  · exact le_rfl
  · linarith

/-- A trace is covered if it goes on with samples of the last segment about where these lay. -/
theorem Covers.prepend (remains : state.Remains trace rest)
    (ahead : rest.start ≤ state.last.start) {count : Nat}
    (near : |rest.stop + rest.interval - state.last.start - rest.interval * count| ≤ slack) :
    ({ state with last := rest.append (state.last.samples.drop count) } : Segmentation).Covers
      interval slack trace.start (traces ++ [trace]) := by
  have restTaken := remains.takenAt taken
  have segmentTaken := restTaken.append (state.last.samples.drop count)
  have longer := Trace.stop_le_append positive.le restTaken (state.last.samples.drop count)
  have stopNear := (abs_le.mp (Trace.abs_stop_append_drop_le positive slackSmall restTaken
    covers.uniform.last near)).1
  have lastStop := le_max_right rest.stop state.last.stop
  have sameStart : (rest.append (state.last.samples.drop count)).start = rest.start := rfl
  have moved : state.last.stop - (rest.append (state.last.samples.drop count)).stop ≤ slack := by
    linarith
  apply covers.withLast positive taken ordered slack_nonneg slackSmall remains segmentTaken
  · intro time keeps
    apply keeps.withEarlierLast ordered remains positive taken sameStart ahead moved
    exact Trace.stop_sub_le_start_sub positive segmentTaken covers.uniform.last ahead (by linarith)
  · exact ahead
  · linarith

/-- A trace is covered if what it gives beyond what is reached becomes a segment of its own. -/
theorem Covers.push (segmentTaken : segment.TakenAt interval)
    (near : ∀ time, trace.start ≤ time → time < segment.start →
      state.Reaches time ∨ ∃ earlier ∈ state.segments, earlier.StandsFor interval time)
    (gives : ∀ time value, trace.Gives time value →
      state.Reaches time ∨ segment.Gives time value) :
    (state.push segment).Covers interval slack trace.start (traces ++ [trace]) := by
  have keepsOwn (time : Int) (starts : segment.start ≤ time) (notBehind : time ≤ segment.stop) :
      (state.push segment).Keeps interval slack trace.start time :=
    keeps_of_last slackSmall starts (notBehind.trans (le_add_of_nonneg_right slack_nonneg))
  have isFloor : (state.push segment).floor? = some state.last.stop := by
    simp [floor?, Segmentation.push]
  apply covers.step positive taken ordered (covers.uniform.push segmentTaken)
  · intro time keeps
    exact keeps.push positive slack_nonneg
  · rintro time notBefore (notBehind | ⟨floor, sameFloor, notAbove⟩)
    · rcases le_or_gt segment.start time with starts | ahead
      · exact .inr (keepsOwn time starts notBehind)
      · exact (near time notBefore ahead).imp_right .inl
    · obtain rfl := Option.some.inj (isFloor.symm.trans sameFloor)
      exact .inl (.inl notAbove)
  · intro time value isGiven
    refine (gives time value isGiven).imp_right fun own => ?_
    obtain ⟨starts, notBehind⟩ := segmentTaken.bounds positive.le own
    exact keepsOwn time starts notBehind

/-- Every step covers its trace. -/
theorem Covers.added (added : Added slack state trace next) :
    next.Covers interval slack trace.start (traces ++ [trace]) := by
  have tracePositive : 0 < trace.interval := taken.interval_eq ▸ positive
  have lastPositive : 0 < state.last.interval := covers.uniform.last.interval_eq ▸ positive
  have sameInterval {rest : Trace} (remains : state.Remains trace rest) :
      rest.interval = state.last.interval :=
    (remains.takenAt taken).interval_eq.trans covers.uniform.last.interval_eq.symm
  have restGivesOr {rest : Trace} (remains : state.Remains trace rest) (time : Int) (value : Int32)
      (gives : trace.Gives time value) :
      state.Reaches time ∨ rest.Gives time value ∧ time ≤ rest.stop := by
    refine (reaches_or_gives tracePositive remains.cut gives).imp_right fun restGives => ?_
    exact ⟨restGives, ((remains.takenAt taken).bounds positive.le restGives).2⟩
  have nearFinished {rest : Trace} (remains : state.Remains trace rest) (time : Int)
      (notBefore : trace.start ≤ time) (isCutOff : time < rest.start) :
      state.Reaches time ∨ ∃ earlier ∈ state.segments, earlier.StandsFor interval time := by
    refine (remains.reaches_or_near positive covers.uniform taken notBefore isCutOff).imp_right ?_
    rintro ⟨segment, member, stands⟩
    exact ⟨segment, List.mem_append_left _ member, stands⟩
  have laterCut {rest later : Trace} (remains : state.Remains trace rest)
      (meets : rest.start ≤ state.last.stop)
      (cut : rest.dropBefore (state.last.stop + 1) = .ok later) :
      later.IsCut rest (state.last.stop + 1) :=
    Trace.isCut_of_dropBefore ((sameInterval remains).symm ▸ lastPositive) (by omega) cut
  have counted : ({ state with corrections := state.corrections + 1 } : Segmentation).Covers
      interval slack latest traces := ⟨covers.uniform, covers.reached, covers.given⟩
  cases added with
  | skipped rest cut isEmpty =>
      apply covers.unchanged positive taken ordered
      intro time value gives
      exact (reaches_or_gives tracePositive cut gives).resolve_right
        (Trace.not_gives_of_empty isEmpty)
  | covered rest remains starts stops =>
      apply covers.unchanged positive taken ordered
      intro time value gives
      rcases restGivesOr remains time value gives with isReached | ⟨_, notBehind⟩
      · exact isReached
      · exact .inl (notBehind.trans stops)
  | continued rest remains behind adjacent =>
      exact covers.append positive taken ordered slack_nonneg slackSmall remains adjacent.near
  | extended rest remains starts meets inStep =>
      have near := Trace.near_of_inStep positive slackSmall covers.uniform.last meets inStep
      exact covers.append positive taken ordered slack_nonneg slackSmall remains near
  | preceded rest remains ahead adjacent =>
      have notLater := ((remains.takenAt taken).start_le_stop positive.le).trans ahead.le
      exact covers.prepend positive taken ordered slack_nonneg slackSmall remains notLater
        adjacent.near
  | led rest remains ahead isMet inStep =>
      have near := Trace.near_of_inStep positive slackSmall (remains.takenAt taken) isMet
        (inStep.symm (sameInterval remains))
      exact covers.prepend positive taken ordered slack_nonneg slackSmall remains ahead.le near
  | opened rest remains behind apart | straggled rest remains ahead apart =>
      apply covers.push positive taken ordered slack_nonneg slackSmall (remains.takenAt taken)
      · exact nearFinished remains
      · intro time value gives
        exact (restGivesOr remains time value gives).imp_right And.left
  | discarded rest later remains meets isMet outOfStep cut isEmpty =>
      have isCut := laterCut remains meets cut
      apply counted.unchanged positive taken ordered
      intro time value gives
      rcases restGivesOr remains time value gives with isReached | ⟨restGives, _⟩
      · exact isReached
      · refine .inl (not_lt.mp fun behind => ?_)
        have laterGives := (isCut.gives_iff time value).mpr ⟨restGives, behind⟩
        exact Trace.not_gives_of_empty isEmpty laterGives
  | corrected rest later remains meets isMet outOfStep cut laterTaken behind =>
      have isCut := laterCut remains meets cut
      apply counted.push positive taken ordered slack_nonneg slackSmall
        (taken.interval_eq ▸ laterTaken)
      · intro time notBefore ahead
        rcases le_or_gt time state.last.stop with isReached | behindLast
        · exact .inl (.inl isReached)
        · -- what is cut off here reaches to within one interval of what is left
          by_cases isWhole : later.start = rest.start
          · exact nearFinished remains time notBefore (isWhole ▸ ahead)
          · have within := isCut.start_lt ((sameInterval remains).symm ▸ lastPositive)
              laterTaken.nonempty isWhole
            rw [sameInterval remains, covers.uniform.last.interval_eq] at within
            refine .inr ⟨state.last, by simp [segments], ?_⟩
            exact Trace.standsFor_of_behind positive.le covers.uniform.last behindLast.le
              (by linarith)
      · intro time value gives
        rcases restGivesOr remains time value gives with isReached | ⟨restGives, _⟩
        · exact .inl isReached
        · rcases le_or_gt time state.last.stop with notBehind | behindLast
          · exact .inl (.inl notBehind)
          · exact .inr ((isCut.gives_iff time value).mpr ⟨restGives, behindLast⟩)

end

/-! ## Samples that are taken -/

/-- A step takes its samples from the segments before and from its trace. -/
theorem Added.subperm (added : Added slack state trace next) (positive : 0 < trace.interval) :
    (next.segments.flatMap Trace.samples).Subperm
      (state.segments.flatMap Trace.samples ++ trace.samples) := by
  have unchanged : (state.segments.flatMap Trace.samples).Subperm
      (state.segments.flatMap Trace.samples ++ trace.samples) :=
    (List.sublist_append_left _ _).subperm
  have grown {segment : Trace} {own taken : List Int32}
      (isPerm : segment.samples.Perm (own ++ taken)) (isOwn : own.Sublist state.last.samples)
      (isTaken : taken.Sublist trace.samples) :
      (({ state with last := segment } : Segmentation).segments.flatMap Trace.samples).Subperm
        (state.segments.flatMap Trace.samples ++ trace.samples) := by
    rw [flatMap_segments, flatMap_segments, List.append_assoc]
    have moved := isPerm.append_left (state.finished.flatMap Trace.samples)
    have fewer := (isOwn.append isTaken).append_left (state.finished.flatMap Trace.samples)
    exact moved.subperm.trans fewer.subperm
  have pushed {segment : Trace} (isTaken : segment.samples.Sublist trace.samples) :
      ((state.push segment).segments.flatMap Trace.samples).Subperm
        (state.segments.flatMap Trace.samples ++ trace.samples) := by
    rw [flatMap_segments (state.push segment)]
    exact (isTaken.append_left _).subperm
  have restSublist {rest : Trace} (remains : state.Remains trace rest) :
      rest.samples.Sublist trace.samples := sublist_of_cut positive remains.cut
  cases added with
  | skipped | covered => exact unchanged
  | continued rest remains =>
      exact grown (List.Perm.refl _) (List.Sublist.refl _) (restSublist remains)
  | extended rest remains =>
      have fewer := (List.drop_sublist (state.last.extent.coveredCount rest.extent)
        rest.samples).trans (restSublist remains)
      exact grown (List.Perm.refl _) (List.Sublist.refl _) fewer
  | preceded rest remains =>
      exact grown List.perm_append_comm (List.Sublist.refl _) (restSublist remains)
  | led rest remains =>
      exact grown List.perm_append_comm (List.drop_sublist _ _) (restSublist remains)
  | opened rest remains | straggled rest remains => exact pushed (restSublist remains)
  | discarded => exact unchanged
  | corrected rest later remains meets isMet outOfStep cut =>
      have isCut := Trace.isCut_of_dropBefore (remains.interval_eq ▸ positive) (by omega) cut
      exact pushed (isCut.sublist.trans (restSublist remains))

/-! ## Runs -/

/-- A run over traces in the order of their starts covers them, with samples of theirs. -/
theorem Covers.foldlM_add (tolerance : Tolerance) (later : List Trace)
    (covers : state.Covers interval (tolerance.slack interval) latest traces)
    (positive : 0 < interval) (slackSmall : 2 * tolerance.slack interval < interval)
    (taken : ∀ trace ∈ later, trace.TakenAt interval)
    (sorted : later.Pairwise fun first second => first.start ≤ second.start)
    (ordered : ∀ trace ∈ later, latest ≤ trace.start) :
    ∃ final, later.foldlM (add tolerance) state = .ok final ∧
      (∀ time value, GivenBy (traces ++ later) time value →
        ∃ segment ∈ final.segments, segment.StandsFor interval time) ∧
      (final.segments.flatMap Trace.samples).Subperm
        (state.segments.flatMap Trace.samples ++ later.flatMap Trace.samples) := by
  have slack_nonneg := tolerance.slack_nonneg positive.le
  induction later generalizing state latest traces with
  | nil =>
      refine ⟨state, rfl, ?_, ?_⟩
      · intro time value isGiven
        rw [List.append_nil] at isGiven
        exact (covers.given time value isGiven).standsFor positive slack_nonneg
      · rw [List.flatMap_nil, List.append_nil]
  | cons trace later ih =>
      have traceTaken := taken trace List.mem_cons_self
      obtain ⟨next, isNext, added⟩ := add_cases tolerance positive covers.uniform.last traceTaken
      have nextCovers := covers.added positive traceTaken (ordered trace List.mem_cons_self)
        slack_nonneg slackSmall added
      obtain ⟨final, isFinal, stands, fewer⟩ := ih nextCovers
        (fun other member => taken other (List.mem_cons_of_mem trace member))
        (List.pairwise_cons.mp sorted).2 (List.pairwise_cons.mp sorted).1
      refine ⟨final, ?_, ?_, ?_⟩
      · rw [List.foldlM_cons, isNext]
        exact isFinal
      · rw [List.append_cons]
        exact stands
      · rw [List.flatMap_cons, ← List.append_assoc]
        have stepFewer := added.subperm (traceTaken.interval_eq ▸ positive)
        exact fewer.trans ((List.subperm_append_right _).mpr stepFewer)

theorem covers_first (positive : 0 < interval) (slackSmall : 2 * slack < interval)
    (slack_nonneg : 0 ≤ slack) (taken : trace.TakenAt interval) :
    (⟨[], trace, 0⟩ : Segmentation).Covers interval slack trace.start [trace] := by
  have keeps (time : Int) (starts : trace.start ≤ time) (notBehind : time ≤ trace.stop) :
      (⟨[], trace, 0⟩ : Segmentation).Keeps interval slack trace.start time :=
    keeps_of_last slackSmall starts (notBehind.trans (le_add_of_nonneg_right slack_nonneg))
  constructor
  case uniform =>
    intro segment member
    rw [List.mem_singleton.mp member]
    exact taken
  case reached =>
    rintro time starts (notBehind | ⟨_, isFloor, _⟩)
    · exact keeps time starts notBehind
    · cases isFloor
  case given =>
    intro time value isGiven
    rw [givenBy_cons, or_iff_left not_givenBy_nil] at isGiven
    obtain ⟨starts, notBehind⟩ := taken.bounds positive.le isGiven
    exact keeps time starts notBehind

end

end Segmentation

/-- The segments of traces stand for every time that these give, and have no samples but theirs. -/
theorem segmentTraces_standsFor (tolerance : Tolerance) {traces segments : List Trace}
    {interval : Int} {corrections : Nat} (positive : 0 < interval)
    (slackSmall : 2 * tolerance.slack interval < interval)
    (taken : ∀ trace ∈ traces, trace.TakenAt interval)
    (formed : segmentTraces tolerance traces = .ok (segments, corrections)) :
    (∀ time value, GivenBy traces time value →
      ∃ segment ∈ segments, segment.StandsFor interval time) ∧
    (segments.flatMap Trace.samples).Subperm (traces.flatMap Trace.samples) := by
  have isPerm := List.mergeSort_perm traces Trace.startsBy
  have inOrder := Trace.pairwise_startsBy traces
  simp only [segmentTraces] at formed
  generalize traces.mergeSort Trace.startsBy = sorted at isPerm inOrder formed
  have sameGiven (time : Int) (value : Int32) :
      GivenBy traces time value ↔ GivenBy sorted time value := by
    simp only [GivenBy, isPerm.mem_iff]
  have sameSamples := (isPerm.flatMap_right Trace.samples).subperm
  cases sorted with
  | nil =>
      cases formed
      refine ⟨?_, by simp⟩
      intro time value isGiven
      exact absurd ((sameGiven time value).mp isGiven) not_givenBy_nil
  | cons first later =>
      have sortedTaken (trace : Trace) (member : trace ∈ first :: later) : trace.TakenAt interval :=
        taken trace (isPerm.mem_iff.mp member)
      have begun := Segmentation.covers_first positive slackSmall
        (tolerance.slack_nonneg positive.le) (sortedTaken first List.mem_cons_self)
      obtain ⟨final, isFinal, stands, fewer⟩ := begun.foldlM_add tolerance later positive slackSmall
        (fun trace member => sortedTaken trace (List.mem_cons_of_mem first member))
        (List.pairwise_cons.mp inOrder).2 (List.pairwise_cons.mp inOrder).1
      dsimp only at formed
      rw [isFinal] at formed
      cases formed
      refine ⟨?_, ?_⟩
      · intro time value isGiven
        exact stands time value ((sameGiven time value).mp isGiven)
      · refine List.Subperm.trans ?_ sameSamples
        simpa [Segmentation.segments] using fewer

/-- Stored traces are together as long as what they describe. -/
theorem length_flatMap_samples {entries : List (StoredTrace × Trace)}
    (describes : ∀ entry ∈ entries, entry.1.Describes entry.2) :
    ((entries.map Prod.snd).flatMap Trace.samples).length =
      totalOf (fun entry => entry.1.length) entries := by
  induction entries with
  | nil => rfl
  | cons entry later ih =>
      rw [List.map_cons, List.flatMap_cons, List.length_append, totalOf_cons,
        (describes entry List.mem_cons_self).length,
        ih fun other member => describes other (List.mem_cons_of_mem entry member)]

/-- Traces of one interval that pools hold are formed into segments, if the slack is less than half
the interval, so that every time at which one of them has a sample is within two intervals of a
segment. The segments have no samples but those of the traces, and so no more of them. -/
theorem segmentStoredTraces_covers {blockSizes : List Nat} {pools : List Pool}
    {rest : List (StoredTrace × Trace)} (tolerance : Tolerance)
    (traces : List (StoredTrace × Trace)) {interval : Int}
    (holds : Holds blockSizes pools (traces ++ rest)) (positive : 0 < interval)
    (slackSmall : 2 * tolerance.slack interval < interval)
    (taken : ∀ trace ∈ traces, trace.2.TakenAt interval) :
    ∃ (segments : List (StoredTrace × Trace)) (corrections : Nat) (changed : List Pool),
      segmentStoredTraces tolerance (traces.map Prod.fst) pools =
        (.ok (segments.map Prod.fst, corrections), changed) ∧
      Holds blockSizes changed (segments ++ rest) ∧
      (∀ trace ∈ traces, ∀ time value, trace.2.Gives time value → ∃ segment ∈ segments,
        segment.1.start - 2 * interval ≤ time ∧ time ≤ segment.1.stop + 2 * interval) ∧
      ((segments.map Prod.snd).flatMap Trace.samples).Subperm
        ((traces.map Prod.snd).flatMap Trace.samples) ∧
      totalOf (fun segment => segment.1.length) segments ≤
        totalOf (fun trace => trace.1.length) traces := by
  obtain ⟨segments, corrections, changed, isFormed, formed, segmentsHold⟩ :=
    segmentStoredTraces_spec tolerance traces holds positive taken
  have plainTaken : ∀ trace ∈ traces.map Prod.snd, trace.TakenAt interval := by
    intro trace member
    obtain ⟨entry, isEntry, rfl⟩ := List.mem_map.mp member
    exact taken entry isEntry
  obtain ⟨stands, fewer⟩ := segmentTraces_standsFor tolerance positive slackSmall plainTaken formed
  refine ⟨segments, corrections, changed, isFormed, segmentsHold, ?_, fewer, ?_⟩
  · intro trace member time value gives
    obtain ⟨plain, isPlain, standsFor⟩ :=
      stands time value ⟨trace.2, List.mem_map_of_mem member, gives⟩
    obtain ⟨segment, isSegment, rfl⟩ := List.mem_map.mp isPlain
    have describes := segmentsHold.describes segment (List.mem_append_left rest isSegment)
    refine ⟨segment, isSegment, ?_⟩
    rw [describes.start, describes.stop_eq]
    exact standsFor
  · have lengths := fewer.length_le
    rw [length_flatMap_samples, length_flatMap_samples] at lengths
    · exact lengths
    · exact fun trace member => holds.describes trace (List.mem_append_left rest member)
    · exact fun segment member => segmentsHold.describes segment (List.mem_append_left rest member)

/-- Three traces of which each is out of step with the one before. -/
def misalignedTraces : List Trace :=
  [⟨60000, 20, 50000, [21, 22]⟩, ⟨0, 20, 50000, [1, 2, 3]⟩, ⟨25000, 20, 50000, [11, 12, 13, 14]⟩]

/-- What the first trace has at 60 milliseconds would reach back into a finished segment. It is left
out, but is within two intervals of that segment. -/
theorem segmentStoredTraces_covers_misaligned :
    ∃ (traces segments : List (StoredTrace × Trace)) (corrections : Nat)
        (pools changed : List Pool),
      traces.map Prod.snd = misalignedTraces ∧ Holds [2] pools traces ∧
      segmentStoredTraces Tolerance.standard (traces.map Prod.fst) pools =
        (.ok (segments.map Prod.fst, corrections), changed) ∧
      (∃ segment ∈ segments, segment.1.start - 100000 ≤ 60000 ∧ 60000 ≤ segment.1.stop + 100000) ∧
      totalOf (fun segment => segment.1.length) segments ≤ 9 := by
  have isPool : Pool.ofBlockSize? 2 = some ⟨2, by decide, #[], #[], rfl, []⟩ := rfl
  obtain ⟨traces, pools, areStored, holds⟩ :=
    StoredTrace.exists_holds (Pool.lends_ofBlockSize? isPool) misalignedTraces (by decide)
  have known : ∀ trace ∈ misalignedTraces, trace.samples ≠ [] ∧ trace.interval = 50000 := by decide
  have areTaken (trace : StoredTrace × Trace) (member : trace ∈ traces) :
      trace.2.TakenAt 50000 := by
    obtain ⟨nonempty, sameInterval⟩ := known trace.2 (areStored ▸ List.mem_map_of_mem member)
    exact ⟨nonempty, sameInterval⟩
  have total : totalOf (fun trace => trace.1.length) traces = 9 := by
    rw [← length_flatMap_samples holds.describes, areStored]
    rfl
  obtain ⟨trace, member, isFirst⟩ : ∃ trace ∈ traces, trace.2 = ⟨60000, 20, 50000, [21, 22]⟩ :=
    List.mem_map.mp (areStored ▸ List.mem_cons_self)
  have gives : trace.2.Gives 60000 21 := isFirst ▸ ⟨0, rfl, rfl⟩
  have nothingElse : Holds [2] pools (traces ++ []) := by rwa [List.append_nil]
  obtain ⟨segments, corrections, changed, isFormed, _, stands, _, fewer⟩ :=
    segmentStoredTraces_covers Tolerance.standard traces nothingElse (by decide) (by decide)
      areTaken
  exact ⟨traces, segments, corrections, pools, changed, areStored, holds, isFormed,
    stands trace member 60000 21 gives, total ▸ fewer⟩

end Waveform
