import Mathlib.Data.List.Pairwise
import Mathlib.Order.Lattice
import Waveform.Coverage.Search

/-!
# Sweeps over windows and segments

Narrowing windows by the segments of a channel, freed from its bookkeeping, is a sweep over two
lists in the order of time. A sweep finds the common part of every window and every segment that
overlap, and what it finds is in the order of time again.
-/

namespace Waveform

namespace Span

/-- Whether two spans have more in common than an end that touches. -/
def Overlaps (first second : Span) : Prop :=
  first.start < second.stop ∧ second.start < first.stop

theorem Overlaps.symm {first second : Span} (overlaps : first.Overlaps second) :
    second.Overlaps first :=
  ⟨overlaps.2, overlaps.1⟩

/-- Whether spans run forward and follow each other in time without touching. -/
structure TimeOrdered (spans : List Span) : Prop where
  forward : ∀ span ∈ spans, span.start ≤ span.stop
  apart : spans.Pairwise fun earlier later => earlier.stop < later.start

instance (spans : List Span) : Decidable (TimeOrdered spans) :=
  decidable_of_iff ((∀ span ∈ spans, span.start ≤ span.stop) ∧
      spans.Pairwise fun earlier later => earlier.stop < later.start)
    ⟨fun both => ⟨both.1, both.2⟩, fun ordered => ⟨ordered.forward, ordered.apart⟩⟩

variable {spans windows segments : List Span} {window segment found : Span}

theorem timeOrdered_nil : TimeOrdered [] :=
  ⟨by simp, List.Pairwise.nil⟩

theorem timeOrdered_cons_iff :
    TimeOrdered (segment :: spans) ↔
      segment.start ≤ segment.stop ∧ (∀ later ∈ spans, segment.stop < later.start) ∧
        TimeOrdered spans := by
  constructor
  · intro ordered
    have apart := List.pairwise_cons.mp ordered.apart
    have forward := List.forall_mem_cons.mp ordered.forward
    exact ⟨forward.1, apart.1, forward.2, apart.2⟩
  · rintro ⟨forward, apart, ordered⟩
    exact ⟨List.forall_mem_cons.mpr ⟨forward, ordered.forward⟩,
      List.pairwise_cons.mpr ⟨apart, ordered.apart⟩⟩

/-- Spans in the order of time are told apart by their places. -/
theorem TimeOrdered.nodup (ordered : TimeOrdered spans) : spans.Nodup := by
  apply ordered.apart.imp_of_mem
  rintro earlier later isEarlier _ behind rfl
  have forward := ordered.forward earlier isEarlier
  omega

/-- Spans in the order of time that have a moment in common are the same. -/
theorem TimeOrdered.eq_of_common (ordered : TimeOrdered spans) {first second : Span}
    (isFirst : first ∈ spans) (isSecond : second ∈ spans) {time : Int}
    (inFirst : first.start ≤ time ∧ time ≤ first.stop)
    (inSecond : second.start ≤ time ∧ time ≤ second.stop) : first = second := by
  induction spans with
  | nil => cases isFirst
  | cons head rest ih =>
      obtain ⟨_, apart, restOrdered⟩ := timeOrdered_cons_iff.mp ordered
      cases isFirst with
      | head =>
          cases isSecond with
          | head => rfl
          | tail _ isLater =>
              have behind := apart second isLater
              omega
      | tail _ firstLater =>
          cases isSecond with
          | head =>
              have behind := apart first firstLater
              omega
          | tail _ secondLater => exact ih restOrdered firstLater secondLater

/-- Spans in the order of time are determined by which they are. -/
theorem TimeOrdered.ext {others : List Span} (ordered : TimeOrdered spans)
    (othersOrdered : TimeOrdered others) (same : ∀ span, span ∈ spans ↔ span ∈ others) :
    spans = others := by
  have reordered : spans.Perm others :=
    (List.perm_ext_iff_of_nodup ordered.nodup othersOrdered.nodup).mpr same
  apply reordered.eq_of_pairwise _ ordered.apart othersOrdered.apart
  intro first second isFirst isSecond before after
  have firstForward := ordered.forward first isFirst
  have secondForward := othersOrdered.forward second isSecond
  omega

theorem meet_forward (overlaps : window.Overlaps segment)
    (windowForward : window.start ≤ window.stop) (segmentForward : segment.start ≤ segment.stop) :
    (window.meet segment).start ≤ (window.meet segment).stop := by
  simp only [Overlaps] at overlaps
  simp only [meet]
  omega

/-! ## The sweep -/

/-- The common parts of windows and segments, found in one sweep over both. -/
def sweep : (windows segments : List Span) → List Span
  | [], _ => []
  | _ :: _, [] => []
  | window :: windows, segment :: segments =>
      if segment.stop ≤ window.start then sweep (window :: windows) segments
      else if window.stop ≤ segment.start then sweep windows (segment :: segments)
      else if segment.stop < window.stop then
        window.meet segment :: sweep (window :: windows) segments
      else if window.stop < segment.stop then
        window.meet segment :: sweep windows (segment :: segments)
      else window.meet segment :: sweep windows segments
termination_by windows segments => windows.length + segments.length

/-- Whether a span is the common part of a window and a segment that overlap. -/
def IsMeetOf (windows segments : List Span) (found : Span) : Prop :=
  ∃ window ∈ windows, ∃ segment ∈ segments, window.Overlaps segment ∧ found = window.meet segment

theorem isMeetOf_cons_left (window : Span) (windows segments : List Span) :
    IsMeetOf (window :: windows) segments found ↔
      IsMeetOf [window] segments found ∨ IsMeetOf windows segments found := by
  simp only [IsMeetOf, List.mem_cons, List.not_mem_nil, or_false, exists_eq_or_imp,
    exists_eq_left]

theorem isMeetOf_cons_right (windows : List Span) (segment : Span) (segments : List Span) :
    IsMeetOf windows (segment :: segments) found ↔
      IsMeetOf windows [segment] found ∨ IsMeetOf windows segments found := by
  simp only [IsMeetOf, List.mem_cons, List.not_mem_nil, or_false, exists_eq_or_imp,
    exists_eq_left, and_or_left, exists_or]

theorem isMeetOf_singleton :
    IsMeetOf [window] [segment] found ↔
      window.Overlaps segment ∧ found = window.meet segment := by
  simp [IsMeetOf]

theorem not_isMeetOf_segment (none : ∀ window ∈ windows, ¬window.Overlaps segment) :
    ¬IsMeetOf windows [segment] found := by
  rintro ⟨window, isWindow, other, isOther, overlaps, _⟩
  obtain rfl := List.mem_singleton.mp isOther
  exact none window isWindow overlaps

theorem not_isMeetOf_window (none : ∀ segment ∈ segments, ¬segment.Overlaps window) :
    ¬IsMeetOf [window] segments found := by
  rintro ⟨other, isOther, segment, isSegment, overlaps, _⟩
  obtain rfl := List.mem_singleton.mp isOther
  exact none segment isSegment overlaps.symm

/-- A span that stops by the start of the first of some spans overlaps none of them. -/
theorem TimeOrdered.not_overlaps_of_before {first other : Span}
    (ordered : TimeOrdered (first :: spans)) (before : other.stop ≤ first.start) :
    ∀ span ∈ first :: spans, ¬span.Overlaps other := by
  obtain ⟨forward, apart, _⟩ := timeOrdered_cons_iff.mp ordered
  intro span member overlaps
  have late := overlaps.1
  cases member with
  | head => omega
  | tail _ isLater =>
      have behind := apart span isLater
      omega

/-- A span that stops no later than another one overlaps none of those behind that one. -/
theorem TimeOrdered.not_overlaps_behind {first other : Span}
    (ordered : TimeOrdered (first :: spans)) (within : other.stop ≤ first.stop) :
    ∀ span ∈ spans, ¬span.Overlaps other := by
  obtain ⟨_, apart, _⟩ := timeOrdered_cons_iff.mp ordered
  intro span member overlaps
  have late := overlaps.1
  have behind := apart span member
  omega

/-- What a sweep finds are the common parts of the windows and segments that overlap. -/
theorem mem_sweep_iff (windowsOrdered : TimeOrdered windows)
    (segmentsOrdered : TimeOrdered segments) :
    found ∈ sweep windows segments ↔ IsMeetOf windows segments found := by
  fun_induction sweep windows segments with
  | case1 segments => simp [IsMeetOf]
  | case2 window windows => simp [IsMeetOf]
  | case3 window windows segment segments before ih =>
      have laterOrdered := (timeOrdered_cons_iff.mp segmentsOrdered).2.2
      rw [ih windowsOrdered laterOrdered, isMeetOf_cons_right _ segment segments]
      have useless : ¬IsMeetOf (window :: windows) [segment] found :=
        not_isMeetOf_segment (windowsOrdered.not_overlaps_of_before before)
      exact (or_iff_right useless).symm
  | case4 window windows segment segments _ before ih =>
      have laterOrdered := (timeOrdered_cons_iff.mp windowsOrdered).2.2
      rw [ih laterOrdered segmentsOrdered, isMeetOf_cons_left window windows]
      have useless : ¬IsMeetOf [window] (segment :: segments) found :=
        not_isMeetOf_window (segmentsOrdered.not_overlaps_of_before before)
      exact (or_iff_right useless).symm
  | case5 window windows segment segments late early shorter ih =>
      have laterOrdered := (timeOrdered_cons_iff.mp segmentsOrdered).2.2
      have overlaps : window.Overlaps segment := ⟨not_le.mp late, not_le.mp early⟩
      have useless : ¬IsMeetOf windows [segment] found :=
        not_isMeetOf_segment (windowsOrdered.not_overlaps_behind shorter.le)
      rw [List.mem_cons, ih windowsOrdered laterOrdered,
        isMeetOf_cons_right _ segment segments, isMeetOf_cons_left window windows [segment],
        isMeetOf_singleton, or_iff_left useless, and_iff_right overlaps]
  | case6 window windows segment segments late early _ longer ih =>
      have laterOrdered := (timeOrdered_cons_iff.mp windowsOrdered).2.2
      have overlaps : window.Overlaps segment := ⟨not_le.mp late, not_le.mp early⟩
      have useless : ¬IsMeetOf [window] segments found :=
        not_isMeetOf_window (segmentsOrdered.not_overlaps_behind longer.le)
      rw [List.mem_cons, ih laterOrdered segmentsOrdered,
        isMeetOf_cons_left window windows, isMeetOf_cons_right [window] segment,
        isMeetOf_singleton, or_iff_left useless, and_iff_right overlaps]
  | case7 window windows segment segments late early notShorter notLonger ih =>
      have windowsLater := (timeOrdered_cons_iff.mp windowsOrdered).2.2
      have segmentsLater := (timeOrdered_cons_iff.mp segmentsOrdered).2.2
      have overlaps : window.Overlaps segment := ⟨not_le.mp late, not_le.mp early⟩
      have uselessWindow : ¬IsMeetOf [window] segments found :=
        not_isMeetOf_window (segmentsOrdered.not_overlaps_behind (not_lt.mp notShorter))
      have uselessSegment : ¬IsMeetOf windows [segment] found :=
        not_isMeetOf_segment (windowsOrdered.not_overlaps_behind (not_lt.mp notLonger))
      rw [List.mem_cons, ih windowsLater segmentsLater,
        isMeetOf_cons_left window windows, isMeetOf_cons_right [window] segment,
        isMeetOf_cons_right windows segment, isMeetOf_singleton, or_iff_left uselessWindow,
        or_iff_right uselessSegment, and_iff_right overlaps]

/-- What a sweep finds among spans of which either kind starts behind a moment starts behind it. -/
theorem lt_start_of_mem_sweep (windowsOrdered : TimeOrdered windows)
    (segmentsOrdered : TimeOrdered segments) {time : Int}
    (behind : (∀ window ∈ windows, time < window.start) ∨
      ∀ segment ∈ segments, time < segment.start)
    (member : found ∈ sweep windows segments) : time < found.start := by
  obtain ⟨window, isWindow, segment, isSegment, _, rfl⟩ :=
    (mem_sweep_iff windowsOrdered segmentsOrdered).mp member
  simp only [meet]
  cases behind with
  | inl behind => exact lt_of_lt_of_le (behind window isWindow) (le_max_left _ _)
  | inr behind => exact lt_of_lt_of_le (behind segment isSegment) (le_max_right _ _)

/-- What a sweep finds is in the order of time. -/
theorem sweep_timeOrdered (windowsOrdered : TimeOrdered windows)
    (segmentsOrdered : TimeOrdered segments) : TimeOrdered (sweep windows segments) := by
  fun_induction sweep windows segments with
  | case1 segments => exact timeOrdered_nil
  | case2 window windows => exact timeOrdered_nil
  | case3 window windows segment segments before ih =>
      exact ih windowsOrdered (timeOrdered_cons_iff.mp segmentsOrdered).2.2
  | case4 window windows segment segments _ before ih =>
      exact ih (timeOrdered_cons_iff.mp windowsOrdered).2.2 segmentsOrdered
  | case5 window windows segment segments late early shorter ih =>
      obtain ⟨forward, behind, laterOrdered⟩ := timeOrdered_cons_iff.mp segmentsOrdered
      have windowForward := (timeOrdered_cons_iff.mp windowsOrdered).1
      apply timeOrdered_cons_iff.mpr
      refine ⟨meet_forward ⟨not_le.mp late, not_le.mp early⟩ windowForward forward, ?_,
        ih windowsOrdered laterOrdered⟩
      intro later member
      exact lt_of_le_of_lt (min_le_right _ _)
        (lt_start_of_mem_sweep windowsOrdered laterOrdered (.inr behind) member)
  | case6 window windows segment segments late early _ longer ih =>
      obtain ⟨forward, behind, laterOrdered⟩ := timeOrdered_cons_iff.mp windowsOrdered
      have segmentForward := (timeOrdered_cons_iff.mp segmentsOrdered).1
      apply timeOrdered_cons_iff.mpr
      refine ⟨meet_forward ⟨not_le.mp late, not_le.mp early⟩ forward segmentForward, ?_,
        ih laterOrdered segmentsOrdered⟩
      intro later member
      exact lt_of_le_of_lt (min_le_left _ _)
        (lt_start_of_mem_sweep laterOrdered segmentsOrdered (.inl behind) member)
  | case7 window windows segment segments late early _ _ ih =>
      obtain ⟨forward, behind, windowsLater⟩ := timeOrdered_cons_iff.mp windowsOrdered
      obtain ⟨segmentForward, _, segmentsLater⟩ := timeOrdered_cons_iff.mp segmentsOrdered
      apply timeOrdered_cons_iff.mpr
      refine ⟨meet_forward ⟨not_le.mp late, not_le.mp early⟩ forward segmentForward, ?_,
        ih windowsLater segmentsLater⟩
      intro later member
      exact lt_of_le_of_lt (min_le_left _ _)
        (lt_start_of_mem_sweep windowsLater segmentsLater (.inl behind) member)

end Span

end Waveform
