import Waveform.Proofs.Trace.Joining

/-!
# The receiver of a join

Of two traces either can be joined to the other. Both ways come to the same, except where the trace
that starts later lies within the other one out of step: then it can be joined to that one, which
covers it, but that one cannot be joined to it.
-/

namespace Waveform

namespace Extent

/-- How two extents of which one starts later lie to each other, and the plans for joining the later
one to the earlier one and the other way round. -/
inductive EitherWay (earlier later : Extent) (slack : Int) :
    Except TraceError JoinPlan → Except TraceError JoinPlan → Prop where
  | continued (behind : earlier.stop < later.start) (adjacent : later.Continues earlier slack) :
      EitherWay earlier later slack (.ok (.sourceAfter 0)) (.ok (.sourceBefore 0))
  | apart (behind : earlier.stop < later.start) (interrupted : ¬ later.Continues earlier slack) :
      EitherWay earlier later slack
        (.error (.notAdjacent (later.start - earlier.stop) earlier.interval))
        (.error (.notAdjacent (later.start - earlier.stop) later.interval))
  | extended (meets : later.start ≤ earlier.stop) (inStep : later.InStep earlier slack) :
      EitherWay earlier later slack (.ok (.sourceAfter (earlier.coveredCount later)))
        (.ok (.sourceBefore (earlier.coveredCount later)))
  | covered (meets : later.start ≤ earlier.stop) (stops : later.stop ≤ earlier.stop)
      (inStep : later.InStep earlier slack) :
      EitherWay earlier later slack (.ok .keepTarget)
        (.ok (.sourceBefore (earlier.coveredCount later)))
  | crossed (reaches : earlier.stop < later.stop) (outOfStep : ¬ later.InStep earlier slack) :
      EitherWay earlier later slack
        (.error (.misaligned (later.misalignment earlier) earlier.interval))
        (.error (.misaligned (earlier.misalignment later) later.interval))
  | hidden (stops : later.stop ≤ earlier.stop) (outOfStep : ¬ later.InStep earlier slack) :
      EitherWay earlier later slack (.ok .keepTarget)
        (.error (.misaligned (earlier.misalignment later) later.interval))

theorem inStep_comm {first second : Extent} {slack : Int}
    (same : first.interval = second.interval) :
    first.InStep second slack ↔ second.InStep first slack :=
  ⟨InStep.symm same, InStep.symm same.symm⟩

/-- The plans for both ways are those of one of the cases. -/
theorem joinPlan_eitherWay {earlier later : Extent} (tolerance : Tolerance)
    (same : earlier.interval = later.interval) (positive : 0 < earlier.interval)
    (earlierNonempty : earlier.length ≠ 0) (laterNonempty : later.length ≠ 0)
    (ordered : earlier.start < later.start) :
    EitherWay earlier later (tolerance.slack earlier.interval)
      (later.joinPlan earlier tolerance) (earlier.joinPlan later tolerance) := by
  have laterToEarlier : JoinCase later earlier (tolerance.slack earlier.interval)
      (later.joinPlan earlier tolerance) :=
    joinPlan_cases tolerance same.symm positive laterNonempty earlierNonempty
  have earlierToLater : JoinCase earlier later (tolerance.slack earlier.interval)
      (earlier.joinPlan later tolerance) := by
    rw [same]
    exact joinPlan_cases tolerance same (same ▸ positive) earlierNonempty laterNonempty
  have earlierOrder := earlier.start_le_stop positive.le
  have laterOrder := later.start_le_stop (same ▸ positive.le)
  have stepEither : earlier.InStep later (tolerance.slack earlier.interval) ↔
      later.InStep earlier (tolerance.slack earlier.interval) := inStep_comm same
  generalize later.joinPlan earlier tolerance = first at laterToEarlier ⊢
  generalize earlier.joinPlan later tolerance = second at earlierToLater ⊢
  cases laterToEarlier with
  | after behind adjacent =>
      cases earlierToLater with
      | before => exact .continued behind adjacent
      | farBefore _ interrupted => exact absurd adjacent interrupted
      | after | farAfter | within | outOfStep | overlapBefore | overlapAfter => omega
  | farAfter behind interrupted =>
      cases earlierToLater with
      | before _ adjacent => exact absurd adjacent interrupted
      | farBefore => exact .apart behind interrupted
      | after | farAfter | within | outOfStep | overlapBefore | overlapAfter => omega
  | within starts stops =>
      cases earlierToLater with
      | outOfStep _ _ _ outOfStep => exact .hidden stops (mt stepEither.mpr outOfStep)
      | overlapBefore _ meets inStep => exact .covered meets stops (stepEither.mp inStep)
      | after | farAfter | before | farBefore | within | overlapAfter => omega
  | outOfStep meets isMet outside outOfStep =>
      cases earlierToLater with
      | outOfStep => exact .crossed (by omega) outOfStep
      | overlapBefore _ _ inStep => exact absurd (stepEither.mp inStep) outOfStep
      | after | farAfter | before | farBefore | within | overlapAfter => omega
  | overlapAfter behind meets inStep =>
      cases earlierToLater with
      | outOfStep _ _ _ outOfStep => exact absurd (stepEither.mpr inStep) outOfStep
      | overlapBefore => exact .extended meets inStep
      | after | farAfter | before | farBefore | within | overlapAfter => omega
  | before | farBefore | overlapBefore => omega

end Extent

namespace Trace

/-- Whether of two traces the one that starts later lies within the other one, but out of step. -/
def IsHidden (first second : Trace) (slack : Int) : Prop :=
  (trailing first second).stop ≤ (leading first second).stop ∧
    ¬ (trailing first second).extent.InStep (leading first second).extent slack

/-- What joining the later of two traces to the earlier one comes to, and what joining the earlier
one to the later one does. -/
inductive Receives (earlier later : Trace) (slack : Int) :
    Except TraceError Joined → Except TraceError Joined → Prop where
  | alike (joined : Joined)
      (inSight : ¬ (later.stop ≤ earlier.stop ∧ ¬ later.extent.InStep earlier.extent slack)) :
      Receives earlier later slack (.ok joined) (.ok joined)
  | neither (error otherError : TraceError)
      (inSight : ¬ (later.stop ≤ earlier.stop ∧ ¬ later.extent.InStep earlier.extent slack)) :
      Receives earlier later slack (.error error) (.error otherError)
  | hidden (stops : later.stop ≤ earlier.stop)
      (outOfStep : ¬ later.extent.InStep earlier.extent slack) :
      Receives earlier later slack (.ok ⟨later.clear, earlier⟩)
        (.error (.misaligned (earlier.extent.misalignment later.extent) later.interval))

/-- A trace is the same after it has taken in samples that it covers. -/
theorem append_drop_covered {earlier later : Trace} (same : earlier.interval = later.interval)
    (positive : 0 < earlier.interval) (laterNonempty : later.samples ≠ [])
    (meets : later.start ≤ earlier.stop) (stops : later.stop ≤ earlier.stop) :
    earlier.append (later.samples.drop (earlier.extent.coveredCount later.extent)) = earlier := by
  have covers := earlier.extent.coversAbout_coveredCount later.extent positive meets
  have all := Extent.length_le_of_coversAbout same positive (by simpa using laterNonempty) stops
    covers
  rw [List.drop_eq_nil_of_le all]
  simp [append]

theorem joinTo_receives {earlier later : Trace} (tolerance : Tolerance)
    (same : earlier.interval = later.interval) (positive : 0 < earlier.interval)
    (earlierNonempty : earlier.samples ≠ []) (laterNonempty : later.samples ≠ [])
    (ordered : earlier.start < later.start) :
    Receives earlier later (tolerance.slack earlier.interval)
      (later.joinTo earlier tolerance) (earlier.joinTo later tolerance) := by
  have planned : Extent.EitherWay earlier.extent later.extent (tolerance.slack earlier.interval)
      (later.extent.joinPlan earlier.extent tolerance)
      (earlier.extent.joinPlan later.extent tolerance) :=
    Extent.joinPlan_eitherWay tolerance same positive (by simpa using earlierNonempty)
      (by simpa using laterNonempty) ordered
  have laterOrder : later.start ≤ later.stop :=
    later.extent.start_le_stop (by simpa [← same] using positive.le)
  simp only [joinTo]
  generalize later.extent.joinPlan earlier.extent tolerance = plan at planned ⊢
  generalize earlier.extent.joinPlan later.extent tolerance = otherPlan at planned ⊢
  cases planned with
  | continued behind adjacent =>
      exact .alike _ fun within => absurd (laterOrder.trans within.1) (not_le.mpr behind)
  | apart behind interrupted =>
      exact .neither _ _ fun within => absurd (laterOrder.trans within.1) (not_le.mpr behind)
  | extended meets inStep => exact .alike _ fun hidden => hidden.2 inStep
  | covered meets stops inStep =>
      have unchanged := append_drop_covered same positive laterNonempty meets stops
      simp only [Except.map, applyPlan, unchanged]
      exact .alike _ fun hidden => hidden.2 inStep
  | crossed reaches outOfStep =>
      exact .neither _ _ fun within => absurd within.1 (not_le.mpr reaches)
  | hidden stops outOfStep => exact .hidden stops outOfStep

section

variable {earlier later : Trace} {slack : Int} {outcome otherOutcome : Except TraceError Joined}

theorem Receives.succeeds_iff (receives : Receives earlier later slack outcome otherOutcome) :
    ((∃ joined, outcome = .ok joined) ↔ ∃ joined, otherOutcome = .ok joined) ↔
      ¬ (later.stop ≤ earlier.stop ∧ ¬ later.extent.InStep earlier.extent slack) := by
  cases receives with
  | alike joined inSight => simpa using inSight
  | neither error otherError inSight => simpa using inSight
  | hidden stops outOfStep => simp [stops, outOfStep]

theorem Receives.eq_of_ok {joined otherJoined : Joined}
    (receives : Receives earlier later slack outcome otherOutcome) (isOk : outcome = .ok joined)
    (isOtherOk : otherOutcome = .ok otherJoined) : joined = otherJoined := by
  cases receives with
  | alike => exact Except.ok.inj (isOk.symm.trans isOtherOk)
  | neither => cases isOk
  | hidden => cases isOtherOk

theorem Receives.of_hidden (receives : Receives earlier later slack outcome otherOutcome)
    (hidden : later.stop ≤ earlier.stop ∧ ¬ later.extent.InStep earlier.extent slack) :
    outcome = .ok ⟨later.clear, earlier⟩ ∧
      otherOutcome =
        .error (.misaligned (earlier.extent.misalignment later.extent) later.interval) := by
  cases receives with
  | alike _ inSight | neither _ _ inSight => exact absurd hidden inSight
  | hidden => exact ⟨rfl, rfl⟩

end

/-- For two traces that start at different times, joining either to the other succeeds alike
exactly if neither is hidden in the other one, and where both succeed the outcome is the same. A
hidden trace can be joined to the one that it is hidden in, which stays as it is, but that one
cannot be joined to it. -/
theorem joinTo_receiver (first second : Trace) (tolerance : Tolerance)
    (same : first.interval = second.interval) (positive : 0 < second.interval)
    (firstNonempty : first.samples ≠ []) (secondNonempty : second.samples ≠ [])
    (different : first.start ≠ second.start) :
    (((∃ joined, first.joinTo second tolerance = .ok joined) ↔
        ∃ joined, second.joinTo first tolerance = .ok joined) ↔
      ¬ IsHidden first second (tolerance.slack second.interval)) ∧
      (∀ joined otherJoined, first.joinTo second tolerance = .ok joined →
        second.joinTo first tolerance = .ok otherJoined → joined = otherJoined) ∧
      (IsHidden first second (tolerance.slack second.interval) →
        (trailing first second).joinTo (leading first second) tolerance =
            .ok ⟨(trailing first second).clear, leading first second⟩ ∧
          ∃ offset, (leading first second).joinTo (trailing first second) tolerance =
            .error (.misaligned offset second.interval)) := by
  rcases lt_or_gt_of_ne different with ahead | behind
  · have receives := joinTo_receives tolerance same (same ▸ positive) firstNonempty secondNonempty
      ahead
    have isLeading : leading first second = first := if_pos ahead
    have isTrailing : trailing first second = second := if_pos ahead
    simp only [IsHidden, isLeading, isTrailing]
    rw [same] at receives
    refine ⟨Iff.trans Iff.comm receives.succeeds_iff, ?_, ?_⟩
    · intro joined otherJoined isJoined isOther
      exact (receives.eq_of_ok isOther isJoined).symm
    · intro hidden
      exact ⟨(receives.of_hidden hidden).1, _, (receives.of_hidden hidden).2⟩
  · have receives := joinTo_receives tolerance same.symm positive secondNonempty firstNonempty
      behind
    have isLeading : leading first second = second := if_neg (not_lt.mpr behind.le)
    have isTrailing : trailing first second = first := if_neg (not_lt.mpr behind.le)
    simp only [IsHidden, isLeading, isTrailing]
    refine ⟨receives.succeeds_iff, ?_, ?_⟩
    · intro joined otherJoined isJoined isOther
      exact receives.eq_of_ok isJoined isOther
    · intro hidden
      rw [← same]
      exact ⟨(receives.of_hidden hidden).1, _, (receives.of_hidden hidden).2⟩

/-- A sample between two samples of another trace is hidden in that trace. -/
theorem joinTo_receiver_between :
    (⟨25000, 20, 50000, [9]⟩ : Trace).joinTo ⟨0, 20, 50000, [1, 2, 3]⟩ Tolerance.standard =
        .ok ⟨⟨25000, 20, 50000, []⟩, ⟨0, 20, 50000, [1, 2, 3]⟩⟩ ∧
      ∃ offset, (⟨0, 20, 50000, [1, 2, 3]⟩ : Trace).joinTo ⟨25000, 20, 50000, [9]⟩
        Tolerance.standard = .error (.misaligned offset 50000) := by
  have slack : Tolerance.standard.slack 50000 = 500 := by decide
  have hidden : IsHidden ⟨0, 20, 50000, [1, 2, 3]⟩ ⟨25000, 20, 50000, [9]⟩
      (Tolerance.standard.slack 50000) := by
    refine ⟨by decide, ?_⟩
    rintro ⟨steps, near⟩
    have bounds := abs_le.mp near
    change -_ ≤ (25000 : Int) - 0 - 50000 * steps ∧ (25000 : Int) - 0 - 50000 * steps ≤ _ at bounds
    omega
  exact (joinTo_receiver ⟨0, 20, 50000, [1, 2, 3]⟩ ⟨25000, 20, 50000, [9]⟩ Tolerance.standard rfl
    (by decide) (by decide) (by decide) (by decide)).2.2 hidden

end Trace

end Waveform
