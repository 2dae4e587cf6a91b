import Waveform.Proofs.Coverage.CommonWindows

/-!
# A channel narrowed by itself

Windows are narrowed to what they have in common with a segment, and a common part must be more than
an end that touches. A segment of a single moment touches itself and no more, so that a channel
searched together with itself keeps exactly its segments that last, while alone it keeps all.
-/

namespace Waveform

namespace Span

variable {spans : List Span} {first second : Span}

/-- Whether a span is more than a single moment. -/
def Lasts (span : Span) : Prop := span.start < span.stop

instance (span : Span) : Decidable span.Lasts := inferInstanceAs (Decidable (_ < _))

theorem overlaps_self_iff {span : Span} : span.Overlaps span ↔ span.Lasts :=
  and_self_iff

@[simp] theorem meet_self (span : Span) : span.meet span = span := by
  simp [meet]

/-- Of spans in the order of time no two different ones overlap. -/
theorem TimeOrdered.eq_of_overlaps (ordered : TimeOrdered spans) (isFirst : first ∈ spans)
    (isSecond : second ∈ spans) (overlaps : first.Overlaps second) : first = second := by
  have firstForward := ordered.forward first isFirst
  have secondForward := ordered.forward second isSecond
  have inFirst : first.start ≤ max first.start second.start ∧
      max first.start second.start ≤ first.stop :=
    ⟨le_max_left _ _, max_le firstForward overlaps.2.le⟩
  have inSecond : second.start ≤ max first.start second.start ∧
      max first.start second.start ≤ second.stop :=
    ⟨le_max_right _ _, max_le overlaps.1.le secondForward⟩
  exact ordered.eq_of_common isFirst isSecond inFirst inSecond

theorem TimeOrdered.filter (ordered : TimeOrdered spans) (keeps : Span → Bool) :
    TimeOrdered (spans.filter keeps) :=
  ⟨fun span member => ordered.forward span (List.mem_of_mem_filter member),
    ordered.apart.filter keeps⟩

/-- A sweep over spans and the same spans again keeps those that last. -/
theorem sweep_self (ordered : TimeOrdered spans) :
    sweep spans spans = spans.filter fun span => span.Lasts := by
  apply (sweep_timeOrdered ordered ordered).ext (ordered.filter _)
  intro found
  rw [mem_sweep_iff ordered ordered, List.mem_filter, decide_eq_true_iff]
  constructor
  · rintro ⟨window, isWindow, segment, isSegment, overlaps, rfl⟩
    obtain rfl := ordered.eq_of_overlaps isWindow isSegment overlaps
    rw [meet_self]
    exact ⟨isWindow, overlaps_self_iff.mp overlaps⟩
  · rintro ⟨member, lasts⟩
    exact ⟨found, member, found, member, overlaps_self_iff.mpr lasts, (meet_self found).symm⟩

end Span

/-- A search in a channel alone finds all its segments. A search in the channel and itself finds
those that are more than a single moment, and so the same windows exactly if all are. -/
theorem commonWindows_self {segments : List Span} {interval : Int}
    (ordered : Span.TimeOrdered segments)
    (same : ∀ segment ∈ segments, segment.interval = interval) :
    (commonWindows [segments] .never).windows = .ok segments ∧
      (commonWindows [segments, segments] .never).windows =
        .ok (segments.filter fun segment => segment.Lasts) ∧
      ((commonWindows [segments, segments] .never).windows =
          (commonWindows [segments] .never).windows ↔
        ∀ segment ∈ segments, segment.Lasts) := by
  have sameOnce : ∀ channel ∈ [segments], ∀ segment ∈ channel, segment.interval = interval := by
    simpa using same
  have sameTwice : ∀ channel ∈ [segments, segments], ∀ segment ∈ channel,
      segment.interval = interval := by
    simpa using same
  have alone : (commonWindows [segments] .never).windows = .ok segments :=
    windows_commonWindows sameOnce
  have twice : (commonWindows [segments, segments] .never).windows =
      .ok (segments.filter fun segment => segment.Lasts) := by
    rw [windows_commonWindows sameTwice, List.foldl_cons, List.foldl_nil, Span.sweep_self ordered]
  refine ⟨alone, twice, ?_⟩
  rw [alone, twice, Except.ok.injEq, List.filter_eq_self]
  simp only [decide_eq_true_iff]

/-- A segment of a single moment between two that last. -/
def momentaryChannel : List Span := [⟨0, 100, 10⟩, ⟨200, 200, 10⟩, ⟨350, 400, 10⟩]

theorem commonWindows_self_momentary :
    Span.TimeOrdered momentaryChannel ∧
      (∀ segment ∈ momentaryChannel, segment.interval = 10) ∧
      (commonWindows [momentaryChannel] .never).windows = .ok momentaryChannel ∧
      (commonWindows [momentaryChannel, momentaryChannel] .never).windows =
        .ok [⟨0, 100, 10⟩, ⟨350, 400, 10⟩] := by
  have ordered : Span.TimeOrdered momentaryChannel := by decide
  have same : ∀ segment ∈ momentaryChannel, segment.interval = 10 := by decide
  obtain ⟨alone, twice, _⟩ := commonWindows_self ordered same
  exact ⟨ordered, same, alone, twice⟩

end Waveform
