import Waveform.Proofs.Demux.Reassembly
import Waveform.Proofs.Storage.Splicing
import Waveform.Proofs.Trace.TimedSamples

/-!
# Splicing aligned traces

Traces that start whole intervals apart, and agree where several of them give a value, are spliced
into one from the start of the first run on. No value is lost. But once a gap is closed the spliced
trace stops earlier than what it was made of, so that a later trace that overlaps the last run may
give some of its values a second time. Exactly if no trace does, the outcome has every value once.
-/

namespace Waveform

namespace Extent

/-- No sample of an extent counts up to a time before its start. -/
theorem countUntil_of_lt_start {extent : Extent} (positive : 0 < extent.interval) {time : Int}
    (before : time < extent.start) : extent.countUntil time = 0 := by
  by_contra some
  have reached := (lt_countUntil_iff positive time 0).mp (Nat.pos_of_ne_zero some)
  have afterStart := start_le_timeAt positive.le 0
  omega

/-- All samples of an extent count up to a time that is not before its stop. -/
theorem length_le_countUntil {extent : Extent} (positive : 0 < extent.interval) {time : Int}
    (reached : extent.stop ≤ time) : extent.length ≤ extent.countUntil time := by
  by_contra fewer
  have inside := not_le.mp fewer
  have notBehind := timeAt_le_stop positive.le inside
  have counted := (lt_countUntil_iff positive time _).mpr (notBehind.trans reached)
  omega

theorem countUntil_mono {extent : Extent} (positive : 0 < extent.interval) {first second : Int}
    (ordered : first ≤ second) : extent.countUntil first ≤ extent.countUntil second := by
  by_contra more
  have inside := (lt_countUntil_iff positive first _).mp (not_le.mp more)
  have counted := (lt_countUntil_iff positive second _).mpr (inside.trans ordered)
  omega

/-- In whole intervals, the covered count needs no rounding. -/
theorem coveredCount_eq_countUntil {earlier later : Extent}
    (same : earlier.interval = later.interval) (positive : 0 < later.interval)
    (aligned : later.interval ∣ earlier.stop - later.start) :
    earlier.coveredCount later = later.countUntil earlier.stop := by
  obtain ⟨steps, isMultiple⟩ := aligned
  simp only [coveredCount, countUntil]
  rw [same, isMultiple, Int.mul_add_ediv_left _ _ positive.ne',
    Int.mul_ediv_cancel_left _ positive.ne', Int.ediv_eq_zero_of_lt (by omega) (by omega), add_zero]

end Extent

namespace Trace

variable {trace spliced : Trace} {interval : Int}

/-- A trace with samples gives the last of them at its stop. -/
theorem exists_gives_stop (positive : 0 < interval) (taken : trace.TakenAt interval) :
    ∃ value, trace.Gives trace.stop value := by
  apply exists_gives (taken.interval_eq ▸ positive) taken.nonempty
  · exact taken.start_le_stop positive.le
  · exact le_rfl
  · rw [stop_eq taken.nonempty, add_sub_cancel_left]
    exact Int.dvd_mul_right _ _

/-- Of two traces that start whole intervals apart, the earlier one covers the samples of the later
one that are up to its stop. -/
theorem coveredCount_of_aligned {earlier later : Trace} (positive : 0 < interval)
    (earlierTaken : earlier.TakenAt interval) (laterTaken : later.TakenAt interval)
    (aligned : interval ∣ later.start - earlier.start) :
    earlier.extent.coveredCount later.extent = later.extent.countUntil earlier.stop := by
  have stopAligned : interval ∣ earlier.stop - later.start := by
    have isMultiple : interval ∣ earlier.stop - earlier.start := by
      rw [stop_eq earlierTaken.nonempty, earlierTaken.interval_eq, add_sub_cancel_left]
      exact Int.dvd_mul_right _ _
    have difference := Int.dvd_sub isMultiple aligned
    rwa [sub_sub_sub_cancel_right] at difference
  apply Extent.coveredCount_eq_countUntil
  · exact earlierTaken.interval_eq.trans laterTaken.interval_eq.symm
  · simpa [laterTaken.interval_eq] using positive
  · rw [extent_interval, laterTaken.interval_eq]
    exact stopAligned

/-- To a trace that starts no later, whole intervals before, splicing adds the samples behind its
stop. -/
theorem spliceOnto_eq (positive : 0 < interval) (splicedTaken : spliced.TakenAt interval)
    (taken : trace.TakenAt interval) (aligned : interval ∣ trace.start - spliced.start)
    (ordered : spliced.start ≤ trace.start) :
    spliced.spliceOnto trace =
      .ok (spliced.append (trace.samples.drop (trace.extent.countUntil spliced.stop))) := by
  have extentPositive : 0 < trace.extent.interval := by
    simpa [taken.interval_eq] using positive
  have traceOrder := taken.start_le_stop positive.le
  have planned : Extent.JoinCase trace.extent spliced.extent
      (Tolerance.standard.slack spliced.interval)
      (trace.extent.joinPlan spliced.extent Tolerance.standard) :=
    Extent.joinPlan_cases Tolerance.standard
      (taken.interval_eq.trans splicedTaken.interval_eq.symm)
      (by simpa [splicedTaken.interval_eq] using positive) (by simpa using taken.nonempty)
      (by simpa using splicedTaken.nonempty)
  generalize isPlan : trace.extent.joinPlan spliced.extent Tolerance.standard = plan at planned
  cases planned with
  | after behind =>
      have noneCounted : trace.extent.countUntil spliced.stop = 0 :=
        Extent.countUntil_of_lt_start extentPositive behind
      rw [spliceOnto_of_plan isPlan, noneCounted]
      rfl
  | farAfter behind =>
      have noneCounted : trace.extent.countUntil spliced.stop = 0 :=
        Extent.countUntil_of_lt_start extentPositive behind
      rw [spliceOnto_of_disjoint isPlan rfl, noneCounted, List.drop_zero]
      exact if_neg (not_le.mpr behind)
  | within starts stops =>
      have allCounted : trace.samples.length ≤ trace.extent.countUntil spliced.stop :=
        Extent.length_le_countUntil extentPositive stops
      rw [spliceOnto_of_plan isPlan, List.drop_eq_nil_of_le allCounted]
      simp [applyPlan, append]
  | overlapAfter behind meets =>
      have counted := coveredCount_of_aligned positive splicedTaken taken aligned
      rw [spliceOnto_of_plan isPlan, counted]
      rfl
  | outOfStep _ _ _ outOfStep =>
      obtain ⟨steps, isMultiple⟩ := aligned
      refine absurd ⟨steps, ?_⟩ outOfStep
      rw [extent_interval, splicedTaken.interval_eq]
      simpa [isMultiple] using Tolerance.standard.slack_nonneg positive.le
  | before ahead | farBefore ahead =>
      change trace.stop < spliced.start at ahead
      omega
  | overlapBefore ahead => exact absurd ahead (not_lt.mpr ordered)

/-- What is put at the end of a spliced trace reaches no further than the trace that it is from. -/
theorem stop_append_drop_le (positive : 0 < interval) (splicedTaken : spliced.TakenAt interval)
    (taken : trace.TakenAt interval) (aligned : interval ∣ trace.start - spliced.start) {time : Int}
    (splicedBy : spliced.stop ≤ time) (traceBy : trace.stop ≤ time) :
    (spliced.append (trace.samples.drop (trace.extent.countUntil spliced.stop))).stop ≤ time := by
  have counts : ¬ trace.extent.countUntil spliced.stop < trace.extent.countUntil spliced.stop ↔
      ¬ trace.extent.timeAt (trace.extent.countUntil spliced.stop) ≤ spliced.stop :=
    not_congr (Extent.lt_countUntil_iff (by simpa [taken.interval_eq] using positive) _ _)
  have behind := not_le.mp (counts.mp (lt_irrefl _))
  generalize trace.extent.countUntil spliced.stop = count at behind ⊢
  rcases Nat.lt_or_ge count trace.samples.length with fewer | all
  · have nextTime : trace.extent.timeAt count = trace.start + interval * count := by
      simp [Extent.timeAt, taken.interval_eq]
    have countAligned : interval ∣ trace.extent.timeAt count - spliced.start := by
      rw [nextTime, add_sub_right_comm]
      exact Int.dvd_add aligned (Int.dvd_mul_right interval count)
    have reached := next_le_of_stop_lt splicedTaken behind countAligned
    have longerStop := stop_eq (splicedTaken.append (trace.samples.drop count)).nonempty
    have splicedStop := stop_eq splicedTaken.nonempty
    have traceStop := stop_eq taken.nonempty
    rw [next_of_nonempty splicedTaken.nonempty, splicedTaken.interval_eq, nextTime] at reached
    rw [samples_append, List.length_append, List.length_drop, Nat.cast_add,
      Nat.cast_sub fewer.le] at longerStop
    change _ = spliced.start + spliced.interval * _ at longerStop
    rw [splicedTaken.interval_eq] at longerStop splicedStop
    rw [taken.interval_eq] at traceStop
    calc
      _ = spliced.stop + interval * trace.samples.length - interval * count := by
        rw [longerStop, splicedStop]
        ring
      _ ≤ trace.stop := by
        rw [traceStop, mul_sub, mul_one]
        linarith
      _ ≤ time := traceBy
  · rw [List.drop_eq_nil_of_le all]
    simpa [append] using splicedBy

/-- The samples behind two times are the same exactly if the trace gives none between them. -/
theorem drop_countUntil_eq_iff (positive : 0 < trace.interval) {first second : Int}
    (ordered : first ≤ second) :
    trace.samples.drop (trace.extent.countUntil first) =
        trace.samples.drop (trace.extent.countUntil second) ↔
      ¬ ∃ time value, trace.Gives time value ∧ first < time ∧ time ≤ second := by
  have fewer : trace.extent.countUntil first ≤ trace.extent.countUntil second :=
    Extent.countUntil_mono positive ordered
  have counts (time : Int) (index : Nat) :
      index < trace.extent.countUntil time ↔ trace.extent.timeAt index ≤ time :=
    Extent.lt_countUntil_iff positive time index
  constructor
  · rintro same ⟨_, value, ⟨index, found, rfl⟩, behind, reached⟩
    obtain ⟨inside, _⟩ := List.getElem?_eq_some_iff.mp found
    have notCounted := mt (counts first index).mp (not_le.mpr behind)
    have counted := (counts second index).mpr reached
    have sameLength := congrArg List.length same
    simp only [List.length_drop] at sameLength
    omega
  · intro noneBetween
    by_contra different
    have inside : trace.extent.countUntil first < trace.samples.length := by
      by_contra outside
      apply different
      rw [List.drop_eq_nil_of_le (by omega), List.drop_eq_nil_of_le (by omega)]
    have more : trace.extent.countUntil first < trace.extent.countUntil second := by
      refine lt_of_le_of_ne fewer fun same => different ?_
      rw [same]
    refine noneBetween ⟨_, _, ⟨_, List.getElem?_eq_getElem inside, rfl⟩, ?_,
      (counts second _).mp more⟩
    exact not_le.mp (mt (counts first _).mpr (lt_irrefl _))

/-! ## Closed gaps -/

/-- Whether a trace has all that some traces give, in the order of time and each value once, from
the first time on: their runs, as if there were no gaps between these. -/
def ClosesGaps (closed : Trace) (traces : List Trace) : Prop :=
  ∃ first later, AreRuns closed.interval (GivenBy traces) (first :: later) ∧
    closed.start = first.start ∧ closed.samples = (first :: later).flatMap samples

theorem closesGaps_congr {closed : Trace} {first second : List Trace}
    (same : ∀ time value, GivenBy first time value ↔ GivenBy second time value) :
    closed.ClosesGaps first ↔ closed.ClosesGaps second := by
  have runsAlike (runs : List Trace) : AreRuns closed.interval (GivenBy first) runs ↔
      AreRuns closed.interval (GivenBy second) runs :=
    ⟨fun areRuns => areRuns.congr same, fun areRuns => areRuns.congr fun time value =>
      (same time value).symm⟩
  simp only [ClosesGaps, runsAlike]

theorem givenBy_iff_mem_timed {traces : List Trace} {time : Int} {value : Int32} :
    GivenBy traces time value ↔ (time, value) ∈ traces.flatMap timed := by
  simp only [GivenBy, List.mem_flatMap, mem_timed_iff]

/-- There are no gaps to close where nothing is given. -/
theorem not_closesGaps_nil (closed : Trace) : ¬ closed.ClosesGaps [] := by
  rintro ⟨first, later, areRuns, _⟩
  have noRuns : first :: later = [] := areRuns.nil_iff.mpr fun _ _ => not_givenBy_nil
  cases noRuns

/-- There is one way to close the gaps. -/
theorem ClosesGaps.unique {closed other : Trace} {traces : List Trace}
    (closes : closed.ClosesGaps traces) (alsoCloses : other.ClosesGaps traces)
    (same : closed.interval = other.interval) (positive : 0 < closed.interval) :
    closed.start = other.start ∧ closed.samples = other.samples := by
  obtain ⟨first, later, areRuns, startsAt, areSamples⟩ := closes
  obtain ⟨otherFirst, otherLater, areOtherRuns, otherStartsAt, areOtherSamples⟩ := alsoCloses
  rw [← same] at areOtherRuns
  have sameRuns := areRuns.unique areOtherRuns positive
  have samples_of (runs : List Trace) :
      runs.flatMap samples = (runs.map fun run => (run.start, run.samples)).flatMap Prod.snd := by
    rw [List.flatMap_map]
  constructor
  · simp only [List.map_cons, List.cons.injEq, Prod.mk.injEq] at sameRuns
    rw [startsAt, otherStartsAt, sameRuns.1.1]
  · rw [areSamples, areOtherSamples, samples_of, samples_of, sameRuns]

end Trace

/-- Whether a trace gives again what earlier traces give, at a time behind the stop that these have
once their gaps are closed. -/
def RepeatsBehind (interval : Int) (earlier : List Trace) (next : Trace) : Prop :=
  ∃ closed : Trace, closed.interval = interval ∧ closed.ClosesGaps earlier ∧
    ∃ time value, next.Gives time value ∧ GivenBy earlier time value ∧ closed.stop < time

/-- Whether one of some traces repeats what the ones before give, behind the stop that these have
once their gaps are closed. -/
def MeetsRepetition (interval : Int) (traces : List Trace) : Prop :=
  ∃ earlier next later, traces = earlier ++ next :: later ∧ RepeatsBehind interval earlier next

theorem meetsRepetition_append_singleton {interval : Int} {traces : List Trace} {trace : Trace} :
    MeetsRepetition interval (traces ++ [trace]) ↔
      MeetsRepetition interval traces ∨ RepeatsBehind interval traces trace := by
  constructor
  · rintro ⟨earlier, next, later, isSplit, repeats⟩
    rcases List.eq_nil_or_concat later with rfl | ⟨others, last, rfl⟩
    · obtain ⟨rfl, isNext⟩ := List.append_inj' isSplit rfl
      cases isNext
      exact .inr repeats
    · rw [List.concat_eq_append, ← List.cons_append, ← List.append_assoc] at isSplit
      obtain ⟨rfl, _⟩ := List.append_inj' isSplit rfl
      exact .inl ⟨earlier, next, others, rfl, repeats⟩
  · rintro (⟨earlier, next, later, rfl, repeats⟩ | repeats)
    · exact ⟨earlier, next, later ++ [trace], by simp, repeats⟩
    · exact ⟨traces, trace, [], rfl, repeats⟩

/-- Two lists that each hold another one are put together to what the other two are only if they are
these. -/
theorem append_eq_append_iff_of_sublist {α : Type} {first second firstPart secondPart : List α}
    (firstHeld : firstPart.Sublist first) (secondHeld : secondPart.Sublist second) :
    first ++ second = firstPart ++ secondPart ↔ first = firstPart ∧ second = secondPart := by
  constructor
  · intro same
    have lengths := congrArg List.length same
    simp only [List.length_append] at lengths
    have firstFewer := firstHeld.length_le
    have secondFewer := secondHeld.length_le
    exact ⟨(firstHeld.eq_of_length (by omega)).symm, (secondHeld.eq_of_length (by omega)).symm⟩
  · rintro ⟨rfl, rfl⟩
    rfl

namespace Segmentation

section

variable {state next : Segmentation} {interval base slack : Int} {traces : List Trace}
  {trace spliced : Trace} {time : Int} {value : Int32}

/-- Nothing is given behind the last run. -/
theorem Reassembles.le_stop (reassembles : state.Reassembles interval base traces)
    (positive : 0 < interval) (isGiven : GivenBy traces time value) : time ≤ state.last.stop := by
  have lastTaken := reassembles.areRuns.taken state.last state.last_mem_segments
  obtain ⟨segment, member, gives⟩ := (reassembles.areRuns.givenBy_iff time value).mpr isGiven
  have segmentTaken := reassembles.areRuns.taken segment member
  have notBehind := (segmentTaken.bounds positive.le gives).2
  rcases List.mem_append.mp member with isFinished | isLast
  · have separated := (List.pairwise_append.mp reassembles.areRuns.separated).2.2
      segment isFinished state.last (by simp)
    have lastOrder := lastTaken.start_le_stop positive.le
    omega
  · rw [List.mem_singleton.mp isLast] at notBehind
    exact notBehind

/-- The runs take in the samples of an aligned trace that are behind the last one. -/
theorem Added.flatMap_segments_eq (added : Added slack state trace next)
    (reassembles : state.Reassembles interval base traces) (positive : 0 < interval)
    (slack_nonneg : 0 ≤ slack) (follows : trace.Follows state.last interval) :
    next.segments.flatMap Trace.samples = state.segments.flatMap Trace.samples ++
      trace.samples.drop (trace.extent.countUntil state.last.stop) := by
  have uncut := reassembles.aboveFloor_eq positive follows.ordered
  have isTrace {rest : Trace} (cut : state.aboveFloor trace = .ok rest) : trace = rest :=
    Except.ok.inj (uncut.symm.trans cut)
  have extentPositive : 0 < trace.extent.interval := by
    simpa [follows.taken.interval_eq] using positive
  have noneCounted (behind : state.last.stop < trace.start) :
      trace.extent.countUntil state.last.stop = 0 :=
    Extent.countUntil_of_lt_start extentPositive behind
  have notAhead : ¬ trace.start < state.last.start := not_lt.mpr follows.ordered
  have traceOrder := follows.taken.start_le_stop positive.le
  cases added with
  | skipped rest cut isEmpty =>
      obtain rfl := isTrace cut
      exact absurd isEmpty follows.taken.nonempty
  | covered rest remains starts stops =>
      obtain rfl := isTrace remains.cut
      have allCounted : trace.samples.length ≤ trace.extent.countUntil state.last.stop :=
        Extent.length_le_countUntil extentPositive stops
      rw [List.drop_eq_nil_of_le allCounted, List.append_nil]
  | continued rest remains behind =>
      obtain rfl := isTrace remains.cut
      rw [noneCounted behind, flatMap_segments, flatMap_segments]
      simp
  | extended rest remains starts meets =>
      obtain rfl := isTrace remains.cut
      have counted := Trace.coveredCount_of_aligned positive follows.earlierTaken follows.taken
        follows.aligned
      rw [counted, flatMap_segments, flatMap_segments]
      simp
  | opened rest remains behind =>
      obtain rfl := isTrace remains.cut
      rw [noneCounted behind, flatMap_segments, flatMap_segments]
      simp [push]
  | preceded rest remains ahead | straggled rest remains ahead =>
      obtain rfl := isTrace remains.cut
      omega
  | led rest remains ahead =>
      obtain rfl := isTrace remains.cut
      exact absurd ahead notAhead
  | discarded rest later remains meets isMet outOfStep
  | corrected rest later remains meets isMet outOfStep =>
      obtain rfl := isTrace remains.cut
      exact absurd (follows.inStep slack_nonneg) outOfStep

/-- Whether a trace was spliced of some traces, whose runs are the segments so far. -/
structure SplicedInto (state : Segmentation) (spliced : Trace) (interval base : Int)
    (traces : List Trace) : Prop where
  reassembles : state.Reassembles interval base traces
  interval_eq : spliced.interval = interval
  aligned : interval ∣ spliced.start - base
  startGiven : ∃ value, GivenBy traces spliced.start value
  start_le : ∀ time value, GivenBy traces time value → spliced.start ≤ time
  notLater : spliced.stop ≤ state.last.stop
  closed_sublist : (state.segments.flatMap Trace.samples).Sublist spliced.samples
  sublist : spliced.samples.Sublist (traces.flatMap Trace.samples)
  exact_iff : spliced.samples = state.segments.flatMap Trace.samples ↔
    ¬ MeetsRepetition interval traces

theorem SplicedInto.taken (into : state.SplicedInto spliced interval base traces) :
    spliced.TakenAt interval := by
  refine ⟨fun isEmpty => ?_, into.interval_eq⟩
  have noneClosed := List.sublist_nil.mp (isEmpty ▸ into.closed_sublist)
  rw [flatMap_segments, List.append_eq_nil_iff] at noneClosed
  exact (into.reassembles.areRuns.taken state.last state.last_mem_segments).nonempty noneClosed.2

/-- The samples of the runs, from the start of the spliced trace on, close the gaps. -/
theorem SplicedInto.exists_closesGaps (into : state.SplicedInto spliced interval base traces)
    (positive : 0 < interval) :
    ∃ closed : Trace, closed.ClosesGaps traces ∧ closed.interval = interval ∧
      closed.start = spliced.start ∧ closed.samples = state.segments.flatMap Trace.samples := by
  obtain ⟨first, later, isCons⟩ : ∃ first later, state.segments = first :: later :=
    List.exists_cons_of_ne_nil (List.ne_nil_of_mem state.last_mem_segments)
  have areRuns := into.reassembles.areRuns
  rw [isCons] at areRuns
  have sameStart : first.start = spliced.start := by
    obtain ⟨value, isGiven⟩ := into.startGiven
    have firstStarts := Trace.gives_start (areRuns.taken first List.mem_cons_self).nonempty
    apply le_antisymm
    · exact areRuns.start_le positive isGiven
    · exact into.start_le _ _ (areRuns.given_iff.mpr (.inl firstStarts))
  exact ⟨{ first with interval, samples := (first :: later).flatMap Trace.samples },
    ⟨first, later, areRuns, rfl, rfl⟩, rfl, sameStart, by rw [isCons]⟩

/-- A trace that has the samples of the runs closes their gaps. -/
theorem SplicedInto.closesGaps_iff (into : state.SplicedInto spliced interval base traces)
    (positive : 0 < interval) :
    spliced.ClosesGaps traces ↔ spliced.samples = state.segments.flatMap Trace.samples := by
  obtain ⟨closed, isClosed, closedInterval, closedStart, closedSamples⟩ :=
    into.exists_closesGaps positive
  have sameInterval := into.interval_eq.trans closedInterval.symm
  constructor
  · intro closes
    rw [← closedSamples]
    exact (closes.unique isClosed sameInterval (into.interval_eq ▸ positive)).2
  · intro areSamples
    obtain ⟨first, later, areRuns, startsAt, areRunSamples⟩ := isClosed
    refine ⟨first, later, sameInterval ▸ areRuns, closedStart ▸ startsAt, ?_⟩
    rw [areSamples, ← closedSamples, areRunSamples]

/-- What a trace gives that follows the last run is a repetition exactly if it is behind the stop of
the spliced trace, but not of the last run. -/
theorem SplicedInto.repeatsBehind_iff (into : state.SplicedInto spliced interval base traces)
    (positive : 0 < interval) (isExact : spliced.samples = state.segments.flatMap Trace.samples)
    (follows : trace.Follows state.last interval) :
    RepeatsBehind interval traces trace ↔
      ∃ time value, trace.Gives time value ∧ spliced.stop < time ∧ time ≤ state.last.stop := by
  have closes := (into.closesGaps_iff positive).mpr isExact
  constructor
  · rintro ⟨closed, sameInterval, isClosed, time, value, gives, isGiven, behind⟩
    have closedInterval := into.interval_eq.trans sameInterval.symm
    obtain ⟨sameStart, sameSamples⟩ :=
      closes.unique isClosed closedInterval (into.interval_eq ▸ positive)
    have sameStop : spliced.stop = closed.stop := by
      simp only [Trace.stop, Trace.extent]
      rw [sameStart, sameSamples, closedInterval]
    exact ⟨time, value, gives, sameStop ▸ behind, into.reassembles.le_stop positive isGiven⟩
  · rintro ⟨time, value, gives, behind, notBehind⟩
    refine ⟨spliced, into.interval_eq, closes, time, value, gives, ?_, behind⟩
    exact (into.reassembles.areRuns.givenBy_iff time value).mp
      ⟨state.last, state.last_mem_segments, follows.gives_of_covered positive notBehind gives⟩

/-- Splicing an aligned trace that starts no earlier than the last run, and agrees with what is
given, goes along with taking it into the runs. -/
theorem SplicedInto.step (into : state.SplicedInto spliced interval base traces)
    (positive : 0 < interval) (slackSmall : Tolerance.standard.slack interval < interval)
    (taken : trace.TakenAt interval) (aligned : interval ∣ trace.start - base)
    (ordered : state.last.start ≤ trace.start)
    (agree : ∀ time value other, GivenBy traces time value → trace.Gives time other →
      value = other) :
    ∃ (next : Segmentation) (longer : Trace), spliced.spliceOnto trace = .ok longer ∧
      next.SplicedInto longer interval base (traces ++ [trace]) ∧
      next.last.start ≤ trace.start := by
  have reassembles := into.reassembles
  have lastTaken := reassembles.areRuns.taken state.last state.last_mem_segments
  have follows := reassembles.follows taken aligned ordered agree
  have slack_nonneg := Tolerance.standard.slack_nonneg positive.le
  have isGivenByLast {time : Int} {value : Int32} (gives : state.last.Gives time value) :
      GivenBy traces time value :=
    (reassembles.areRuns.givenBy_iff time value).mp ⟨state.last, state.last_mem_segments, gives⟩
  have notBefore : spliced.start ≤ trace.start :=
    (into.start_le _ _ (isGivenByLast (Trace.gives_start lastTaken.nonempty))).trans ordered
  have splicedAligned : interval ∣ trace.start - spliced.start :=
    dvd_sub_of_base aligned into.aligned
  have tracePositive : 0 < trace.interval := taken.interval_eq ▸ positive
  have isLonger := Trace.spliceOnto_eq positive into.taken taken splicedAligned notBefore
  obtain ⟨next, _, added⟩ := add_cases Tolerance.standard positive lastTaken taken
  obtain ⟨nextReassembles, nextOrdered⟩ := added.reassembles reassembles positive slack_nonneg
    slackSmall taken aligned ordered agree
  have nextSamples := added.flatMap_segments_eq reassembles positive slack_nonneg follows
  have fewerDropped : (trace.samples.drop (trace.extent.countUntil state.last.stop)).Sublist
      (trace.samples.drop (trace.extent.countUntil spliced.stop)) :=
    List.drop_sublist_drop_left _ (Extent.countUntil_mono tracePositive into.notLater)
  have stillGiven {time : Int} {value : Int32} (isGiven : GivenBy traces time value) :
      GivenBy (traces ++ [trace]) time value := givenBy_append.mpr (.inl isGiven)
  refine ⟨next, _, isLonger, ?_, nextOrdered⟩
  constructor
  case reassembles => exact nextReassembles
  case interval_eq => exact into.interval_eq
  case aligned => exact into.aligned
  case startGiven =>
    obtain ⟨value, isGiven⟩ := into.startGiven
    exact ⟨value, stillGiven isGiven⟩
  case start_le =>
    intro time value isGiven
    rcases givenBy_append.mp isGiven with isOld | isNew
    · exact into.start_le time value isOld
    · rw [givenBy_cons, or_iff_left not_givenBy_nil] at isNew
      exact notBefore.trans (isNew.start_le tracePositive.le)
  case notLater =>
    obtain ⟨_, lastStops⟩ := Trace.exists_gives_stop positive lastTaken
    obtain ⟨_, traceStops⟩ := Trace.exists_gives_stop positive taken
    apply Trace.stop_append_drop_le positive into.taken taken splicedAligned
    · exact into.notLater.trans
        (nextReassembles.le_stop positive (stillGiven (isGivenByLast lastStops)))
    · exact nextReassembles.le_stop positive
        (givenBy_append.mpr (.inr (givenBy_cons.mpr (.inl traceStops))))
  case closed_sublist =>
    rw [nextSamples]
    exact into.closed_sublist.append fewerDropped
  case sublist =>
    rw [List.flatMap_append, List.flatMap_singleton]
    exact into.sublist.append (List.drop_sublist _ _)
  case exact_iff =>
    rw [nextSamples, Trace.samples_append,
      append_eq_append_iff_of_sublist into.closed_sublist fewerDropped,
      meetsRepetition_append_singleton, not_or, ← into.exact_iff]
    refine and_congr_right fun isExact => ?_
    rw [Trace.drop_countUntil_eq_iff tracePositive into.notLater,
      into.repeatsBehind_iff positive isExact follows]

/-- A trace with samples is spliced of itself alone. -/
theorem splicedInto_first (taken : trace.TakenAt interval)
    (aligned : interval ∣ trace.start - base) (positive : 0 < interval) :
    (⟨[], trace, 0⟩ : Segmentation).SplicedInto trace interval base [trace] := by
  constructor
  case reassembles => exact reassembles_first taken aligned
  case interval_eq => exact taken.interval_eq
  case aligned => exact aligned
  case startGiven => exact ⟨_, givenBy_cons.mpr (.inl (Trace.gives_start taken.nonempty))⟩
  case start_le =>
    intro time value isGiven
    rw [givenBy_cons, or_iff_left not_givenBy_nil] at isGiven
    exact (taken.bounds positive.le isGiven).1
  case notLater => exact le_rfl
  case closed_sublist => simp [segments]
  case sublist => simp
  case exact_iff =>
    refine iff_of_true (by simp [segments]) ?_
    rintro ⟨earlier, next, later, isSplit, closed, _, closes, _⟩
    rw [List.singleton_eq_append_iff] at isSplit
    obtain ⟨rfl, _⟩ | ⟨_, isEmpty⟩ := isSplit
    · exact Trace.not_closesGaps_nil closed closes
    · cases isEmpty

/-- Splicing aligned traces that agree, in the order of their starts, goes along with forming their
runs. -/
theorem SplicedInto.run (later : List Trace)
    (into : state.SplicedInto spliced interval base traces) (positive : 0 < interval)
    (slackSmall : Tolerance.standard.slack interval < interval)
    (taken : ∀ trace ∈ later, trace.TakenAt interval)
    (aligned : ∀ trace ∈ later, interval ∣ trace.start - base)
    (sorted : later.Pairwise fun first second => first.start ≤ second.start)
    (ordered : ∀ trace ∈ later, state.last.start ≤ trace.start)
    (agree : ∀ time value other, GivenBy (traces ++ later) time value →
      GivenBy (traces ++ later) time other → value = other) :
    ∃ (final : Segmentation) (longest : Trace),
      later.foldlM Trace.spliceOnto spliced = .ok longest ∧
      final.SplicedInto longest interval base (traces ++ later) := by
  induction later generalizing state spliced traces with
  | nil =>
      rw [List.append_nil]
      exact ⟨state, spliced, rfl, into⟩
  | cons trace later ih =>
      obtain ⟨next, longer, isLonger, nextInto, nextOrdered⟩ := into.step positive slackSmall
        (taken trace List.mem_cons_self) (aligned trace List.mem_cons_self)
        (ordered trace List.mem_cons_self) (by
          intro time value other isGiven gives
          apply agree time value other
          · exact givenBy_append.mpr (.inl isGiven)
          · exact givenBy_append.mpr (.inr (givenBy_cons.mpr (.inl gives))))
      rw [List.foldlM_cons, isLonger]
      rw [List.append_cons] at agree ⊢
      apply ih nextInto
      · exact fun other member => taken other (List.mem_cons_of_mem trace member)
      · exact fun other member => aligned other (List.mem_cons_of_mem trace member)
      · exact (List.pairwise_cons.mp sorted).2
      · intro other member
        exact nextOrdered.trans ((List.pairwise_cons.mp sorted).1 other member)
      · exact agree

end

end Segmentation

namespace Trace

/-- The traces that have samples, in the order of their starts. -/
def spliceOrder (traces : List Trace) : List Trace :=
  (traces.filter fun trace => trace.samples ≠ []).mergeSort startsBy

variable {traces : List Trace} {interval : Int}

theorem mem_spliceOrder {trace : Trace} :
    trace ∈ spliceOrder traces ↔ trace ∈ traces ∧ trace.samples ≠ [] := by
  simp [spliceOrder, List.mem_mergeSort]

theorem spliceOrder_eq_nil_iff :
    spliceOrder traces = [] ↔ ∀ trace ∈ traces, trace.samples = [] := by
  rw [List.eq_nil_iff_forall_not_mem]
  simp only [mem_spliceOrder, not_and, not_not]

theorem splice_eq (traces : List Trace) :
    splice traces = match spliceOrder traces with
      | [] => .ok none
      | first :: later => some <$> later.foldlM spliceOnto first := rfl

/-- Traces without samples give nothing. -/
theorem givenBy_spliceOrder {time : Int} {value : Int32} :
    GivenBy (spliceOrder traces) time value ↔ GivenBy traces time value := by
  constructor
  · rintro ⟨trace, member, gives⟩
    exact ⟨trace, (mem_spliceOrder.mp member).1, gives⟩
  · rintro ⟨trace, member, gives⟩
    exact ⟨trace, mem_spliceOrder.mpr ⟨member, fun isEmpty => not_gives_of_empty isEmpty gives⟩,
      gives⟩

/-- Splicing consistent traces yields nothing exactly if they have no samples. Otherwise it yields a
trace from their earliest start on, in which no value is lost and none is made up; it has every
value that they give once, in the order of time, exactly if none of them repeats values behind
the stop that the ones before have once their gaps are closed. -/
theorem splice_closesGaps_iff {rate : Float} (legal : SampleRate.interval? rate = some interval)
    (uniform : ∀ trace ∈ spliceOrder traces, trace.interval = interval)
    (consistent : Consistent interval (spliceOrder traces)) :
    (splice traces = .ok none ↔ ∀ trace ∈ traces, trace.samples = []) ∧
      ((∃ trace ∈ traces, trace.samples ≠ []) →
        ∃ spliced closed : Trace, splice traces = .ok (some spliced) ∧
          closed.ClosesGaps traces ∧ closed.interval = interval ∧ spliced.interval = interval ∧
          (∃ trace ∈ traces, trace.samples ≠ [] ∧ trace.start = spliced.start) ∧
          (∀ trace ∈ traces, trace.samples ≠ [] → spliced.start ≤ trace.start) ∧
          closed.samples.Sublist spliced.samples ∧
          spliced.samples.Sublist ((spliceOrder traces).flatMap samples) ∧
          (spliced.ClosesGaps traces ↔ ¬ MeetsRepetition interval (spliceOrder traces))) := by
  have positive := SampleRate.pos_of_interval? legal
  have taken : ∀ trace ∈ spliceOrder traces, trace.TakenAt interval :=
    fun trace member => ⟨(mem_spliceOrder.mp member).2, uniform trace member⟩
  obtain ⟨base, aligned⟩ := consistent.exists_base
  have sorted : (spliceOrder traces).Pairwise fun first second => first.start ≤ second.start :=
    pairwise_startsBy _
  rw [← spliceOrder_eq_nil_iff, splice_eq]
  cases isOrder : spliceOrder traces with
  | nil =>
      refine ⟨iff_of_true rfl rfl, ?_⟩
      rintro ⟨trace, member, nonempty⟩
      exact absurd (spliceOrder_eq_nil_iff.mp isOrder trace member) nonempty
  | cons first later =>
      have isFirst : first ∈ spliceOrder traces := isOrder ▸ List.mem_cons_self
      have isLater {trace : Trace} (member : trace ∈ later) : trace ∈ spliceOrder traces :=
        isOrder ▸ List.mem_cons_of_mem first member
      rw [isOrder] at sorted
      have begun := Segmentation.splicedInto_first (taken first isFirst) (aligned first isFirst)
        positive
      obtain ⟨final, spliced, isSpliced, into⟩ := begun.run later positive
        (Tolerance.slack_standard_lt legal) (fun trace member => taken trace (isLater member))
        (fun trace member => aligned trace (isLater member)) (List.pairwise_cons.mp sorted).2
        (List.pairwise_cons.mp sorted).1 (by simpa [isOrder] using consistent.agree)
      rw [List.singleton_append, ← isOrder] at into
      have sameGaps (trace : Trace) :
          trace.ClosesGaps (spliceOrder traces) ↔ trace.ClosesGaps traces :=
        closesGaps_congr fun time value => givenBy_spliceOrder
      have startsNoLater (trace : Trace) (member : trace ∈ spliceOrder traces) :
          spliced.start ≤ trace.start :=
        into.start_le _ _ ⟨trace, member, gives_start (taken trace member).nonempty⟩
      obtain ⟨closed, isClosed, closedInterval, _, closedSamples⟩ := into.exists_closesGaps positive
      dsimp only
      rw [isSpliced, ← isOrder]
      refine ⟨iff_of_false (by simp) (by simp [isOrder]), fun _ => ⟨spliced, closed, rfl, ?_⟩⟩
      refine ⟨(sameGaps closed).mp isClosed, closedInterval, into.interval_eq, ?_, ?_, ?_,
        into.sublist, ?_⟩
      · obtain ⟨value, trace, member, gives⟩ := into.startGiven
        obtain ⟨isOld, nonempty⟩ := mem_spliceOrder.mp member
        refine ⟨trace, isOld, nonempty, le_antisymm ?_ (startsNoLater trace member)⟩
        exact ((taken trace member).bounds positive.le gives).1
      · intro trace member nonempty
        exact startsNoLater trace (mem_spliceOrder.mpr ⟨member, nonempty⟩)
      · exact closedSamples ▸ into.closed_sublist
      · exact (sameGaps spliced).symm.trans ((into.closesGaps_iff positive).trans into.exact_iff)

/-- Two runs with a gap between them, and a trace that overlaps the end of the second one. -/
def gapBeforeOverlap : List Trace :=
  [⟨0, 20, 50000, [1, 2]⟩, ⟨200000, 20, 50000, [3, 4]⟩, ⟨250000, 20, 50000, [4, 5]⟩]

theorem spliceOrder_gapBeforeOverlap : spliceOrder gapBeforeOverlap = gapBeforeOverlap := by
  have allFilled : gapBeforeOverlap.filter (fun trace => trace.samples ≠ []) = gapBeforeOverlap :=
    List.filter_eq_self.mpr (by decide)
  rw [spliceOrder, allFilled]
  exact List.mergeSort_of_pairwise (by decide)

theorem consistent_gapBeforeOverlap : Consistent 50000 gapBeforeOverlap where
  aligned := by decide
  agree := by
    have agreeing : ∀ first ∈ gapBeforeOverlap.flatMap timed,
        ∀ second ∈ gapBeforeOverlap.flatMap timed, first.1 = second.1 → first.2 = second.2 := by
      decide
    intro time value other isGiven alsoGiven
    exact agreeing _ (givenBy_iff_mem_timed.mp isGiven) _ (givenBy_iff_mem_timed.mp alsoGiven) rfl

theorem areRuns_gapBeforeOverlap : AreRuns 50000 (GivenBy gapBeforeOverlap)
    [⟨0, 20, 50000, [1, 2]⟩, ⟨200000, 20, 50000, [3, 4, 5]⟩] where
  taken := by simpa using And.intro ⟨by simp, rfl⟩ ⟨by simp, rfl⟩
  separated := by decide
  givenBy_iff := by
    intro time value
    rw [givenBy_iff_mem_timed, givenBy_iff_mem_timed]
    have areGiven :
        ∀ entry ∈ [⟨0, 20, 50000, [1, 2]⟩, ⟨200000, 20, 50000, [3, 4, 5]⟩].flatMap timed,
        entry ∈ gapBeforeOverlap.flatMap timed := by decide
    have areKept : ∀ entry ∈ gapBeforeOverlap.flatMap timed,
        entry ∈ [⟨0, 20, 50000, [1, 2]⟩, ⟨200000, 20, 50000, [3, 4, 5]⟩].flatMap timed := by decide
    exact ⟨areGiven _, areKept _⟩

/-- Closing the gap leaves one value for each time. -/
theorem closesGaps_gapBeforeOverlap :
    ClosesGaps ⟨0, 20, 50000, [1, 2, 3, 4, 5]⟩ gapBeforeOverlap :=
  ⟨_, _, areRuns_gapBeforeOverlap, rfl, rfl⟩

/-- The fourth value is spliced in twice, the second time because the spliced trace stops before the
gap that it has closed. -/
theorem splice_closesGaps_iff_gapBeforeOverlap :
    splice gapBeforeOverlap = .ok (some ⟨0, 20, 50000, [1, 2, 3, 4, 4, 5]⟩) ∧
      MeetsRepetition 50000 gapBeforeOverlap := by
  have legal : SampleRate.interval? 20 = some 50000 := by decide +kernel
  have isSpliced : splice gapBeforeOverlap = .ok (some ⟨0, 20, 50000, [1, 2, 3, 4, 4, 5]⟩) := by
    rw [splice_eq, spliceOrder_gapBeforeOverlap]
    rfl
  have spec := @splice_closesGaps_iff gapBeforeOverlap 50000 20 legal
  rw [spliceOrder_gapBeforeOverlap] at spec
  obtain ⟨_, spliceSpec⟩ := spec (by decide) consistent_gapBeforeOverlap
  obtain ⟨spliced, _, alsoSpliced, _, _, splicedInterval, _, _, _, _, exact_iff⟩ :=
    spliceSpec (by decide)
  obtain rfl := Option.some.inj (Except.ok.inj (isSpliced.symm.trans alsoSpliced))
  refine ⟨isSpliced, ?_⟩
  by_contra noRepetition
  have closes := exact_iff.mpr noRepetition
  have same := closes.unique closesGaps_gapBeforeOverlap rfl (by decide)
  exact absurd same.2 (by decide)

end Trace

end Waveform
