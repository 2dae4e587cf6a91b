import Mathlib.Algebra.Order.Group.Unbundled.Abs
import Mathlib.Tactic.Linarith
import Mathlib.Tactic.Ring
import Waveform.Trace.Trace

/-!
# Joining two traces

When two traces with samples can be joined, and what they are joined to. The plan of a join is
inverted once, case by case; the times at which joined samples stand follow from the rounding of the
covered count alone.
-/

namespace Waveform

namespace Extent

/-- The last time of an extent with samples, without a case distinction. -/
theorem stop_of_nonempty (extent : Extent) (nonempty : extent.length ≠ 0) :
    extent.stop = extent.start + extent.interval * ((extent.length : Int) - 1) := by
  simp [stop, nonempty]

theorem start_le_stop (extent : Extent) (nonneg : 0 ≤ extent.interval) :
    extent.start ≤ extent.stop := by
  simp only [stop]
  split
  next => exact le_rfl
  next nonempty =>
    have room : (0 : Int) ≤ (extent.length : Int) - 1 := by omega
    have product := mul_nonneg nonneg room
    linarith

/-! ## Stretches of time in intervals -/

/-- Whether an extent covers `count` samples at the start of a later one, to the nearest sample:
from the later start to the time at which the earlier extent would go on, there are as many
intervals, give or take half of one. -/
def CoversAbout (earlier later : Extent) (count : Nat) : Prop :=
  2 * |earlier.stop + earlier.interval - later.start - earlier.interval * count| ≤ earlier.interval

/-- Whether the starts of two extents agree up to some number of intervals, give or take a slack. -/
def InStep (source target : Extent) (slack : Int) : Prop :=
  ∃ steps : Int, |source.start - target.start - target.interval * steps| ≤ slack

/-- Whether a later extent goes on where an earlier one stops, give or take a slack. -/
def Continues (later earlier : Extent) (slack : Int) : Prop :=
  earlier.interval - slack ≤ later.start - earlier.stop ∧
    later.start - earlier.stop ≤ earlier.interval + slack

/-- The distance to the nearest multiple is a distance to some multiple. -/
theorem min_emod_le_iff {interval : Int} (positive : 0 < interval) (distance slack : Int) :
    min (distance % interval) (interval - distance % interval) ≤ slack ↔
      ∃ steps : Int, |distance - interval * steps| ≤ slack := by
  have division := Int.mul_ediv_add_emod distance interval
  have remainder_nonneg := Int.emod_nonneg distance positive.ne'
  have remainder_lt := Int.emod_lt_of_pos distance positive
  constructor
  · intro near
    rcases min_le_iff.mp near with below | above
    · refine ⟨distance / interval, abs_le.mpr ⟨?_, ?_⟩⟩ <;> linarith
    · refine ⟨distance / interval + 1, abs_le.mpr ⟨?_, ?_⟩⟩ <;>
        rw [mul_add, mul_one] <;> linarith
  · rintro ⟨steps, near⟩
    obtain ⟨lower, upper⟩ := abs_le.mp near
    rcases le_or_gt steps (distance / interval) with fewer | more
    · have surplus := mul_nonneg positive.le (sub_nonneg.mpr fewer)
      rw [mul_sub] at surplus
      exact min_le_iff.mpr (.inl (by linarith))
    · have surplus := mul_nonneg positive.le (sub_nonneg.mpr (Int.add_one_le_iff.mpr more))
      rw [mul_sub, mul_add, mul_one] at surplus
      exact min_le_iff.mpr (.inr (by linarith))

/-- The misalignment is within a slack exactly if the two extents are in step. -/
theorem misalignment_le_iff {source target : Extent} (same : source.interval = target.interval)
    (positive : 0 < target.interval) (slack : Int) :
    source.misalignment target ≤ slack ↔ source.InStep target slack := by
  simp only [misalignment, InStep]
  rw [same]
  exact min_emod_le_iff positive (source.start - target.start) slack

/-- The covered count is the covered stretch rounded to the nearest sample. -/
theorem coversAbout_coveredCount (earlier later : Extent) (positive : 0 < earlier.interval)
    (reached : later.start ≤ earlier.stop) :
    earlier.CoversAbout later (earlier.coveredCount later) := by
  have division := Int.mul_ediv_add_emod
    (earlier.stop - later.start + earlier.interval / 2) earlier.interval
  have remainder_nonneg := Int.emod_nonneg
    (earlier.stop - later.start + earlier.interval / 2) positive.ne'
  have remainder_lt := Int.emod_lt_of_pos
    (earlier.stop - later.start + earlier.interval / 2) positive
  have quotient_nonneg :
      0 ≤ (earlier.stop - later.start + earlier.interval / 2) / earlier.interval :=
    Int.ediv_nonneg (by omega) positive.le
  simp only [CoversAbout, coveredCount]
  rw [Int.toNat_of_nonneg (by omega), mul_add, mul_one]
  -- half an interval is rounded down when it is added, and times are whole numbers
  have withinHalf : |earlier.stop + earlier.interval - later.start -
      (earlier.interval * ((earlier.stop - later.start + earlier.interval / 2) / earlier.interval) +
        earlier.interval)| ≤ earlier.interval / 2 :=
    abs_le.mpr ⟨by omega, by omega⟩
  omega

/-- A stretch that covers all samples of the later extent leaves none of them over. -/
theorem length_le_of_coversAbout {earlier later : Extent} {count : Nat}
    (same : earlier.interval = later.interval) (positive : 0 < earlier.interval)
    (nonempty : later.length ≠ 0) (within : later.stop ≤ earlier.stop)
    (covers : earlier.CoversAbout later count) : later.length ≤ count := by
  by_contra fewer
  have room : (0 : Int) ≤ (later.length : Int) - 1 - count := by omega
  have product := mul_nonneg positive.le room
  rw [mul_sub, mul_sub, mul_one] at product
  have lastTime := stop_of_nonempty later nonempty
  rw [← same, mul_sub, mul_one] at lastTime
  have bounds := abs_le.mp (show |earlier.stop + earlier.interval - later.start -
    earlier.interval * count| ≤ earlier.interval / 2 by unfold CoversAbout at covers; omega)
  omega

/-- In step, rounding finds the sample that stands where the earlier extent would go on. -/
theorem near_of_coversAbout {earlier later : Extent} {count : Nat} {slack : Int}
    (nonempty : earlier.length ≠ 0) (positive : 0 < earlier.interval)
    (slackSmall : 2 * slack < earlier.interval)
    (covers : earlier.CoversAbout later count) (inStep : later.InStep earlier slack) :
    |earlier.stop + earlier.interval - later.start - earlier.interval * count| ≤ slack := by
  obtain ⟨steps, near⟩ := inStep
  have lastTime := stop_of_nonempty earlier nonempty
  obtain ⟨lower, upper⟩ := abs_le.mp near
  have bounds := abs_le.mp (show |earlier.stop + earlier.interval - later.start -
    earlier.interval * count| ≤ earlier.interval / 2 by unfold CoversAbout at covers; omega)
  -- the distance to the nearest sample and the distance in step differ by whole intervals, and both
  -- are at most half of one
  have whole : (earlier.length : Int) - steps - count = 0 := by
    have difference : earlier.interval * ((earlier.length : Int) - steps - count) =
        (earlier.stop + earlier.interval - later.start - earlier.interval * count) +
          (later.start - earlier.start - earlier.interval * steps) := by
      rw [lastTime]
      ring
    rcases lt_trichotomy ((earlier.length : Int) - steps - count) 0 with below | equal | above
    · have product := mul_le_mul_of_nonneg_left (Int.le_sub_one_of_lt below) positive.le
      omega
    · exact equal
    · have product := mul_le_mul_of_nonneg_left (Int.add_one_le_of_lt above) positive.le
      omega
  have exact : earlier.stop + earlier.interval - later.start - earlier.interval * count =
      -(later.start - earlier.start - earlier.interval * steps) := by
    have : (earlier.length : Int) = steps + count := by omega
    rw [lastTime, this]
    ring
  rw [exact, abs_neg]
  exact near

/-- Without an overlap no sample is covered, and the later extent goes on where the earlier one
stops. -/
theorem Continues.near {later earlier : Extent} {slack : Int}
    (continues : later.Continues earlier slack) :
    |earlier.stop + earlier.interval - later.start - earlier.interval * (0 : Nat)| ≤ slack := by
  obtain ⟨least, most⟩ := continues
  rw [Nat.cast_zero, mul_zero, sub_zero]
  exact abs_le.mpr ⟨by linarith, by linarith⟩

/-- Samples that are put behind an earlier extent stop where the later of the two stopped, give or
take the distance by which the first of them is moved. -/
theorem stop_of_continued {earlier later joined : Extent} {count : Nat} {slack : Int}
    (same : earlier.interval = later.interval) (positive : 0 < earlier.interval)
    (slackSmall : 2 * slack < earlier.interval)
    (earlierNonempty : earlier.length ≠ 0) (laterNonempty : later.length ≠ 0)
    (near : |earlier.stop + earlier.interval - later.start - earlier.interval * count| ≤ slack)
    (sameStart : joined.start = earlier.start) (sameInterval : joined.interval = earlier.interval)
    (length : joined.length = earlier.length + (later.length - count)) :
    |joined.stop - max earlier.stop later.stop| ≤ slack := by
  obtain ⟨lower, upper⟩ := abs_le.mp near
  have earlierStop := stop_of_nonempty earlier earlierNonempty
  have laterStop := stop_of_nonempty later laterNonempty
  have joinedStop := stop_of_nonempty joined (by omega)
  rw [← same, mul_sub, mul_one] at laterStop
  rw [sameStart, sameInterval, length, Nat.cast_add, mul_sub, mul_add, mul_one] at joinedStop
  rw [mul_sub, mul_one] at earlierStop
  rcases Nat.lt_or_ge count later.length with fewer | all
  · have remaining := mul_le_mul_of_nonneg_left
      (show (1 : Int) ≤ ((later.length - count : Nat) : Int) by omega) positive.le
    have split : earlier.interval * ((later.length - count : Nat) : Int) =
        earlier.interval * later.length - earlier.interval * count := by
      rw [Nat.cast_sub fewer.le, mul_sub]
    have laterLast : earlier.stop ≤ later.stop := by linarith
    rw [max_eq_right laterLast]
    exact abs_le.mpr ⟨by linarith, by linarith⟩
  · have surplus := mul_nonneg positive.le
      (show (0 : Int) ≤ (count : Int) - later.length by omega)
    rw [mul_sub] at surplus
    rw [Nat.sub_eq_zero_of_le all, Nat.cast_zero, mul_zero] at joinedStop
    rcases le_total later.stop earlier.stop with earlierLast | laterLast
    · rw [max_eq_left earlierLast]
      exact abs_le.mpr ⟨by linarith, by linarith⟩
    · rw [max_eq_right laterLast]
      exact abs_le.mpr ⟨by linarith, by linarith⟩

/-! ## The cases of a join -/

/-- How two extents with samples and of one interval lie to each other, and the plan for each
way. -/
inductive JoinCase (source target : Extent) (slack : Int) : Except TraceError JoinPlan → Prop where
  | after (behind : target.stop < source.start) (adjacent : source.Continues target slack) :
      JoinCase source target slack (.ok (.sourceAfter 0))
  | farAfter (behind : target.stop < source.start) (apart : ¬ source.Continues target slack) :
      JoinCase source target slack
        (.error (.notAdjacent (source.start - target.stop) target.interval))
  | before (ahead : source.stop < target.start) (adjacent : target.Continues source slack) :
      JoinCase source target slack (.ok (.sourceBefore 0))
  | farBefore (ahead : source.stop < target.start) (apart : ¬ target.Continues source slack) :
      JoinCase source target slack
        (.error (.notAdjacent (target.start - source.stop) target.interval))
  | within (starts : target.start ≤ source.start) (stops : source.stop ≤ target.stop) :
      JoinCase source target slack (.ok .keepTarget)
  | outOfStep (meets : source.start ≤ target.stop) (isMet : target.start ≤ source.stop)
      (outside : ¬ (target.start ≤ source.start ∧ source.stop ≤ target.stop))
      (apart : ¬ source.InStep target slack) :
      JoinCase source target slack
        (.error (.misaligned (source.misalignment target) target.interval))
  | overlapBefore (ahead : source.start < target.start) (isMet : target.start ≤ source.stop)
      (inStep : source.InStep target slack) :
      JoinCase source target slack (.ok (.sourceBefore (source.coveredCount target)))
  | overlapAfter (behind : target.start ≤ source.start) (meets : source.start ≤ target.stop)
      (inStep : source.InStep target slack) :
      JoinCase source target slack (.ok (.sourceAfter (target.coveredCount source)))

/-- The plan of a join is that of one of the cases. -/
theorem joinPlan_cases {source target : Extent} (tolerance : Tolerance)
    (same : source.interval = target.interval) (positive : 0 < target.interval)
    (sourceNonempty : source.length ≠ 0) (targetNonempty : target.length ≠ 0) :
    JoinCase source target (tolerance.slack target.interval)
      (source.joinPlan target tolerance) := by
  have inStep := misalignment_le_iff same positive (tolerance.slack target.interval)
  have unfolded : source.joinPlan target tolerance =
      if target.stop < source.start then
        if isAdjacent target.interval (tolerance.slack target.interval)
            (source.start - target.stop) then .ok (.sourceAfter 0)
        else .error (.notAdjacent (source.start - target.stop) target.interval)
      else if source.stop < target.start then
        if isAdjacent target.interval (tolerance.slack target.interval)
            (target.start - source.stop) then .ok (.sourceBefore 0)
        else .error (.notAdjacent (target.start - source.stop) target.interval)
      else if source.isWithin target then .ok .keepTarget
      else if tolerance.slack target.interval < source.misalignment target then
        .error (.misaligned (source.misalignment target) target.interval)
      else if source.start < target.start then
        .ok (.sourceBefore (source.coveredCount target))
      else .ok (.sourceAfter (target.coveredCount source)) := by
    simp only [joinPlan, sameInterval, same, sourceNonempty, targetNonempty, if_true, if_false]
    rfl
  have adjacent (earlier later : Extent) (earlierInterval : earlier.interval = target.interval) :
      isAdjacent target.interval (tolerance.slack target.interval)
        (later.start - earlier.stop) = true ↔
          later.Continues earlier (tolerance.slack target.interval) := by
    simp [isAdjacent, Continues, earlierInterval]
  rw [unfolded]
  split
  next behind =>
    split
    next near => exact .after behind ((adjacent target source rfl).mp near)
    next far => exact .farAfter behind (mt (adjacent target source rfl).mpr far)
  next notBehind =>
    split
    next ahead =>
      split
      next near => exact .before ahead ((adjacent source target same).mp near)
      next far => exact .farBefore ahead (mt (adjacent source target same).mpr far)
    next notAhead =>
      split
      next inside =>
        have bounds : target.start ≤ source.start ∧ source.stop ≤ target.stop := by
          simpa [isWithin] using inside
        exact .within bounds.1 bounds.2
      next outside =>
        split
        next apart =>
          refine .outOfStep (not_lt.mp notBehind) (not_lt.mp notAhead) ?_
            (mt inStep.mpr (not_le.mpr apart))
          simpa [isWithin] using outside
        next near =>
          split
          next ahead =>
            exact .overlapBefore ahead (not_lt.mp notAhead) (inStep.mp (not_lt.mp near))
          next behind =>
            exact .overlapAfter (not_lt.mp behind) (not_lt.mp notBehind)
              (inStep.mp (not_lt.mp near))

theorem not_overlaps_of_behind {first second : Extent} (behind : second.stop < first.start) :
    first.overlaps second = false := by
  simp [overlaps, not_le.mpr behind]

theorem not_overlaps_of_ahead {first second : Extent} (ahead : first.stop < second.start) :
    first.overlaps second = false := by
  simp [overlaps, not_le.mpr ahead]

theorem overlaps_iff {first second : Extent} (firstNonempty : first.length ≠ 0)
    (secondNonempty : second.length ≠ 0) :
    first.overlaps second = true ↔ first.start ≤ second.stop ∧ second.start ≤ first.stop := by
  simp [overlaps, firstNonempty, secondNonempty]

theorem InStep.symm {source target : Extent} {slack : Int}
    (same : source.interval = target.interval) (inStep : source.InStep target slack) :
    target.InStep source slack := by
  obtain ⟨steps, near⟩ := inStep
  refine ⟨-steps, ?_⟩
  rw [← abs_neg]
  rw [show -(target.start - source.start - source.interval * -steps) =
    source.start - target.start - target.interval * steps by rw [same]; ring]
  exact near

end Extent

namespace Trace

/-! ## The outcome of a join -/

/-- The one of two traces that starts earlier, the target if they start together. -/
def leading (source target : Trace) : Trace :=
  if source.start < target.start then source else target

/-- The one of two traces that starts later, the source if they start together. -/
def trailing (source target : Trace) : Trace :=
  if source.start < target.start then target else source

/-- When a source can be joined to a target: it lies within the target, or the two overlap in step,
or they have no time in common and the later one goes on where the earlier one stops. -/
def Joinable (source target : Trace) (slack : Int) : Prop :=
  (target.start ≤ source.start ∧ source.stop ≤ target.stop) ∨
    (source.extent.overlaps target.extent = true ∧
      source.extent.InStep target.extent slack) ∨
    (source.extent.overlaps target.extent = false ∧
      (trailing source target).extent.Continues (leading source target).extent slack)

/-- What two traces are joined to: the source is emptied, and the target has the samples of the
earlier trace and behind them those of the later one that are not covered. -/
structure IsJoin (source target : Trace) (slack : Int) (joined : Joined) : Prop where
  source_empty : joined.source.samples = []
  samples : ∃ covered,
    joined.target.samples =
        (leading source target).samples ++ (trailing source target).samples.drop covered ∧
      if source.extent.overlaps target.extent then
        (leading source target).extent.CoversAbout (trailing source target).extent covered
      else covered = 0
  start : joined.target.start = min source.start target.start
  interval : joined.target.interval = target.interval
  stop : |joined.target.stop - max source.stop target.stop| ≤ slack

/-- Why two traces cannot be joined. -/
def obstacle (source target : Trace) : TraceError :=
  if source.extent.overlaps target.extent then
    .misaligned (source.extent.misalignment target.extent) target.interval
  else .notAdjacent ((trailing source target).start - (leading source target).stop) target.interval

section

variable {source target : Trace} {slack : Int}

/-- A source that starts no earlier and leaves some samples over is put behind the target. -/
theorem isJoin_sourceAfter (same : source.interval = target.interval)
    (positive : 0 < target.interval) (slackSmall : 2 * slack < target.interval)
    (sourceNonempty : source.samples ≠ []) (targetNonempty : target.samples ≠ [])
    (behind : target.start ≤ source.start) {covered : Nat}
    (near : |target.stop + target.interval - source.start - target.interval * covered| ≤ slack)
    (counted : if source.extent.overlaps target.extent then
        target.extent.CoversAbout source.extent covered else covered = 0) :
    IsJoin source target slack (applyPlan source target (.sourceAfter covered)) := by
  have isLeading : leading source target = target := if_neg (not_lt.mpr behind)
  have isTrailing : trailing source target = source := if_neg (not_lt.mpr behind)
  constructor
  case source_empty => rfl
  case samples =>
    rw [isLeading, isTrailing]
    exact ⟨covered, rfl, counted⟩
  case start => exact (min_eq_right behind).symm
  case interval => rfl
  case stop =>
    rw [max_comm]
    exact Extent.stop_of_continued same.symm positive slackSmall (by simpa using targetNonempty)
      (by simpa using sourceNonempty) near rfl rfl (by simp [applyPlan])

/-- A source that starts earlier is followed by what it leaves over of the target. -/
theorem isJoin_sourceBefore (same : source.interval = target.interval)
    (positive : 0 < target.interval) (slackSmall : 2 * slack < target.interval)
    (sourceNonempty : source.samples ≠ []) (targetNonempty : target.samples ≠ [])
    (ahead : source.start < target.start) {covered : Nat}
    (near : |source.stop + source.interval - target.start - source.interval * covered| ≤ slack)
    (counted : if source.extent.overlaps target.extent then
        source.extent.CoversAbout target.extent covered else covered = 0) :
    IsJoin source target slack (applyPlan source target (.sourceBefore covered)) := by
  have isLeading : leading source target = source := if_pos ahead
  have isTrailing : trailing source target = target := if_pos ahead
  constructor
  case source_empty => rfl
  case samples =>
    rw [isLeading, isTrailing]
    exact ⟨covered, rfl, counted⟩
  case start => exact (min_eq_left ahead.le).symm
  case interval => exact same
  case stop =>
    exact Extent.stop_of_continued same (by simpa [same] using positive)
      (by simpa [same] using slackSmall)
      (by simpa using sourceNonempty) (by simpa using targetNonempty) near rfl rfl
      (by simp [applyPlan])

/-- A source that lies within the target adds nothing to it. -/
theorem isJoin_keepTarget (same : source.interval = target.interval)
    (positive : 0 < target.interval) (slack_nonneg : 0 ≤ slack)
    (sourceNonempty : source.samples ≠ []) (targetNonempty : target.samples ≠ [])
    (starts : target.start ≤ source.start) (stops : source.stop ≤ target.stop) :
    IsJoin source target slack (applyPlan source target .keepTarget) := by
  have isLeading : leading source target = target := if_neg (not_lt.mpr starts)
  have isTrailing : trailing source target = source := if_neg (not_lt.mpr starts)
  have sourceStart : source.start ≤ source.stop :=
    source.extent.start_le_stop (by simpa [same] using positive.le)
  have reached : source.start ≤ target.stop := sourceStart.trans stops
  have overlapping : source.extent.overlaps target.extent = true :=
    (Extent.overlaps_iff (by simpa using sourceNonempty) (by simpa using targetNonempty)).mpr
      ⟨reached, starts.trans sourceStart⟩
  have covers := target.extent.coversAbout_coveredCount source.extent positive reached
  constructor
  case source_empty => rfl
  case samples =>
    refine ⟨target.extent.coveredCount source.extent, ?_, ?_⟩
    · have all := Extent.length_le_of_coversAbout same.symm positive
        (by simpa using sourceNonempty) stops covers
      rw [isLeading, isTrailing, List.drop_eq_nil_of_le all, List.append_nil]
      rfl
    · rw [if_pos overlapping, isLeading, isTrailing]
      exact covers
  case start => exact (min_eq_right starts).symm
  case interval => rfl
  case stop =>
    rw [max_eq_right stops]
    simpa [applyPlan] using slack_nonneg

/-- Traces that have no time in common can be joined only if the later one goes on where the earlier
one stops. -/
theorem not_joinable_of_apart (apart : source.extent.overlaps target.extent = false)
    (outside : ¬ (target.start ≤ source.start ∧ source.stop ≤ target.stop))
    (interrupted :
      ¬ (trailing source target).extent.Continues (leading source target).extent slack) :
    ¬ Joinable source target slack := by
  rintro (within | ⟨overlapping, _⟩ | ⟨_, continues⟩)
  · exact outside within
  · rw [apart] at overlapping
    cases overlapping
  · exact interrupted continues

/-- Traces that overlap can be joined only if they are in step or the source adds nothing. -/
theorem not_joinable_of_outOfStep (overlapping : source.extent.overlaps target.extent = true)
    (outside : ¬ (target.start ≤ source.start ∧ source.stop ≤ target.stop))
    (outOfStep : ¬ source.extent.InStep target.extent slack) :
    ¬ Joinable source target slack := by
  rintro (within | ⟨_, inStep⟩ | ⟨apart, _⟩)
  · exact outside within
  · exact outOfStep inStep
  · rw [overlapping] at apart
    cases apart

end

/-- A join succeeds exactly if the two traces can be joined. It then gives their join, and otherwise
it tells what stands in the way. -/
theorem joinTo_outcome (source target : Trace) (tolerance : Tolerance)
    (same : source.interval = target.interval) (positive : 0 < target.interval)
    (sourceNonempty : source.samples ≠ []) (targetNonempty : target.samples ≠ [])
    (slackSmall : 2 * tolerance.slack target.interval < target.interval) :
    match source.joinTo target tolerance with
    | .ok joined =>
        Joinable source target (tolerance.slack target.interval) ∧
          IsJoin source target (tolerance.slack target.interval) joined
    | .error error =>
        ¬ Joinable source target (tolerance.slack target.interval) ∧
          error = obstacle source target := by
  have sourceLength : source.extent.length ≠ 0 := by simpa using sourceNonempty
  have targetLength : target.extent.length ≠ 0 := by simpa using targetNonempty
  have sourceOrder : source.start ≤ source.stop :=
    source.extent.start_le_stop (by simpa [same] using positive.le)
  have targetOrder : target.start ≤ target.stop :=
    target.extent.start_le_stop positive.le
  have overlapping := Extent.overlaps_iff sourceLength targetLength
  have slack_nonneg := tolerance.slack_nonneg positive.le
  have planned : Extent.JoinCase source.extent target.extent (tolerance.slack target.interval)
      (source.extent.joinPlan target.extent tolerance) :=
    Extent.joinPlan_cases tolerance same positive sourceLength targetLength
  simp only [joinTo]
  generalize source.extent.joinPlan target.extent tolerance = plan at planned ⊢
  generalize tolerance.slack target.interval = slack at *
  cases planned with
  | after behind adjacent =>
      have apart := Extent.not_overlaps_of_behind behind
      have isBehind : target.start ≤ source.start := targetOrder.trans behind.le
      refine ⟨.inr (.inr ⟨apart, ?_⟩), ?_⟩
      · simpa [leading, trailing, not_lt.mpr isBehind] using adjacent
      · exact isJoin_sourceAfter same positive slackSmall sourceNonempty targetNonempty isBehind
          adjacent.near (by simp [apart])
  | farAfter behind interrupted =>
      have apart := Extent.not_overlaps_of_behind behind
      have isBehind : target.start ≤ source.start := targetOrder.trans behind.le
      refine ⟨not_joinable_of_apart apart ?_ ?_, ?_⟩
      · exact fun within => absurd (sourceOrder.trans within.2) (not_le.mpr behind)
      · simpa [leading, trailing, not_lt.mpr isBehind] using interrupted
      · simp [obstacle, apart, leading, trailing, not_lt.mpr isBehind, stop]
  | before ahead adjacent =>
      have apart := Extent.not_overlaps_of_ahead ahead
      have isAhead : source.start < target.start := sourceOrder.trans_lt ahead
      refine ⟨.inr (.inr ⟨apart, ?_⟩), ?_⟩
      · simpa [leading, trailing, isAhead] using adjacent
      · exact isJoin_sourceBefore same positive slackSmall sourceNonempty targetNonempty isAhead
          adjacent.near (by simp [apart])
  | farBefore ahead interrupted =>
      have apart := Extent.not_overlaps_of_ahead ahead
      have isAhead : source.start < target.start := sourceOrder.trans_lt ahead
      refine ⟨not_joinable_of_apart apart ?_ ?_, ?_⟩
      · exact fun within => absurd within.1 (not_le.mpr isAhead)
      · simpa [leading, trailing, isAhead] using interrupted
      · simp [obstacle, apart, leading, trailing, isAhead, stop]
  | within starts stops =>
      exact ⟨.inl ⟨starts, stops⟩,
        isJoin_keepTarget same positive slack_nonneg sourceNonempty targetNonempty starts stops⟩
  | outOfStep meets isMet outside outOfStep =>
      have overlap := overlapping.mpr ⟨meets, isMet⟩
      refine ⟨not_joinable_of_outOfStep overlap outside outOfStep, ?_⟩
      simp [obstacle, overlap]
  | overlapBefore isAhead isMet inStep =>
      have overlap := overlapping.mpr ⟨isAhead.le.trans targetOrder, isMet⟩
      have covers := source.extent.coversAbout_coveredCount target.extent
        (by simpa [same] using positive) isMet
      have near := Extent.near_of_coversAbout sourceLength (by simpa [same] using positive)
        (by simpa [same] using slackSmall) covers (inStep.symm same)
      refine ⟨.inr (.inl ⟨overlap, inStep⟩), ?_⟩
      exact isJoin_sourceBefore same positive slackSmall sourceNonempty targetNonempty isAhead near
        (by rw [if_pos overlap]; exact covers)
  | overlapAfter isBehind meets inStep =>
      have overlap := overlapping.mpr ⟨meets, isBehind.trans sourceOrder⟩
      have covers := target.extent.coversAbout_coveredCount source.extent positive meets
      have near := Extent.near_of_coversAbout targetLength positive slackSmall covers inStep
      refine ⟨.inr (.inl ⟨overlap, inStep⟩), ?_⟩
      exact isJoin_sourceAfter same positive slackSmall sourceNonempty targetNonempty isBehind near
        (by rw [if_pos overlap]; exact covers)

/-- A source that overlaps the target by one sample and is early by less than the slack gives up
just that sample. -/
theorem joinTo_outcome_early :
    2 * Tolerance.standard.slack 50000 < 50000 ∧
      Joinable ⟨99800, 20, 50000, [7, 8, 9]⟩ ⟨0, 20, 50000, [1, 2, 3]⟩
        (Tolerance.standard.slack 50000) ∧
      IsJoin ⟨99800, 20, 50000, [7, 8, 9]⟩ ⟨0, 20, 50000, [1, 2, 3]⟩
        (Tolerance.standard.slack 50000)
        ⟨⟨99800, 20, 50000, []⟩, ⟨0, 20, 50000, [1, 2, 3, 8, 9]⟩⟩ :=
  ⟨by decide,
    joinTo_outcome ⟨99800, 20, 50000, [7, 8, 9]⟩ ⟨0, 20, 50000, [1, 2, 3]⟩ Tolerance.standard rfl
      (by decide) (by decide) (by decide) (by decide)⟩

end Trace

end Waveform
