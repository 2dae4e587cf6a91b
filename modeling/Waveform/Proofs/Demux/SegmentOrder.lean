import Waveform.Proofs.Demux.Tracks

/-!
# The order of segments

The segments of a track have samples, taken at the interval of the track's key. They are in
order and do not overlap exactly if no trace, cut down to what lies above the finished segments,
turns out to lie before the last segment without reaching it. Such a trace becomes a segment of
its own, behind one that starts after it.
-/

namespace Waveform

/-- Whether each segment stops before any later one starts. -/
def InOrder (segments : List Trace) : Prop :=
  segments.Pairwise fun earlier later => earlier.stop < later.start

namespace Segmentation

/-- Whether a trace, cut down to what lies above the finished segments, stops before the last
segment starts and is not continued by it. -/
def IsStraggler (state : Segmentation) (tolerance : Tolerance) (trace : Trace) : Prop :=
  ∃ rest, state.Remains trace rest ∧ rest.stop < state.last.start ∧
    ¬ state.last.extent.Continues rest.extent (tolerance.slack trace.interval)

/-- Whether taking in traces one after the other meets a straggler. -/
def MeetsStraggler (tolerance : Tolerance) (state : Segmentation) : List Trace → Prop
  | [] => False
  | trace :: later =>
      state.IsStraggler tolerance trace ∨
        ∃ next, state.add tolerance trace = .ok next ∧ MeetsStraggler tolerance next later

theorem inOrder_segments_iff {state : Segmentation} :
    InOrder state.segments ↔
      InOrder state.finished ∧ ∀ segment ∈ state.finished, segment.stop < state.last.start := by
  simp [InOrder, segments, List.pairwise_append]

theorem inOrder_push_iff {state : Segmentation} {segment : Trace} :
    InOrder (state.push segment).segments ↔
      InOrder state.segments ∧ ∀ earlier ∈ state.segments, earlier.stop < segment.start := by
  rw [inOrder_segments_iff]
  rfl

/-- The floor is the latest time of the finished segments. -/
theorem stop_lt_of_floor {state : Segmentation} (ordered : InOrder state.finished)
    (nonneg : ∀ segment ∈ state.finished, segment.start ≤ segment.stop) {time : Int}
    (above : ∀ floor, state.floor? = some floor → floor < time) :
    ∀ segment ∈ state.finished, segment.stop < time := by
  intro segment member
  rcases List.eq_nil_or_concat state.finished with isEmpty | ⟨earlier, latest, isConcat⟩
  · rw [isEmpty] at member
    cases member
  · rw [List.concat_eq_append] at isConcat
    have latestBelow : latest.stop < time := above latest.stop (by simp [floor?, isConcat])
    rw [isConcat] at member ordered nonneg
    rcases List.mem_append.mp member with isEarlier | isLatest
    · have before : segment.stop < latest.start :=
        (List.pairwise_append.mp ordered).2.2 segment isEarlier latest (by simp)
      have latestOrder := nonneg latest (by simp)
      exact (before.trans_le latestOrder).trans latestBelow
    · rw [List.mem_singleton.mp isLatest]
      exact latestBelow

section

variable {tolerance : Tolerance} {state next : Segmentation} {trace rest : Trace} {interval : Int}

/-- Segments stay as ordered as they are when the last one grows at its end. -/
theorem inOrder_withLast_iff {segment : Trace} (sameStart : segment.start = state.last.start) :
    InOrder ({ state with last := segment } : Segmentation).segments ↔ InOrder state.segments := by
  rw [inOrder_segments_iff, inOrder_segments_iff]
  dsimp only
  rw [sameStart]

/-- Segments stay as ordered as they are when the last one grows at its beginning, but not down to
the finished ones. -/
theorem inOrder_withEarlierLast_iff (positive : 0 < interval) (uniform : state.Uniform interval)
    (remains : state.Remains trace rest) {segment : Trace} (sameStart : segment.start = rest.start)
    (notLater : segment.start ≤ state.last.start) :
    InOrder ({ state with last := segment } : Segmentation).segments ↔ InOrder state.segments := by
  rw [inOrder_segments_iff, inOrder_segments_iff]
  refine and_congr_right fun ordered => ⟨?_, ?_⟩
  · intro below other member
    exact (below other member).trans_le notLater
  · intro _ other member
    have order : ∀ finished ∈ state.finished, finished.start ≤ finished.stop :=
      fun finished isFinished =>
        (uniform finished (List.mem_append_left _ isFinished)).start_le_stop positive.le
    dsimp only
    rw [sameStart]
    exact stop_lt_of_floor ordered order remains.above other member

/-- Segments stay as ordered as they are when one is added that starts behind the last one. -/
theorem inOrder_pushBehind_iff (positive : 0 < interval) (uniform : state.Uniform interval)
    {segment : Trace} (behind : state.last.stop < segment.start) :
    InOrder (state.push segment).segments ↔ InOrder state.segments := by
  rw [inOrder_push_iff]
  refine and_iff_left_of_imp fun ordered other member => ?_
  have lastOrder := uniform.last.start_le_stop positive.le
  rcases List.mem_append.mp member with isFinished | isLast
  · have before := (inOrder_segments_iff.mp ordered).2 other isFinished
    exact (before.trans_le lastOrder).trans behind
  · rw [List.mem_singleton.mp isLast]
    exact behind

/-- A segment that starts before the last one stops is out of order. -/
theorem not_inOrder_push {segment : Trace} (ahead : segment.start ≤ state.last.stop) :
    ¬ InOrder (state.push segment).segments := by
  rw [inOrder_push_iff]
  rintro ⟨_, behind⟩
  exact absurd (behind state.last (by simp [segments])) (not_lt.mpr ahead)

/-- A trace is no straggler if nothing is left of it, or what is left reaches the last segment, or
the last segment continues it. -/
theorem not_isStraggler (cut : state.aboveFloor trace = .ok rest)
    (reaches : rest.samples = [] ∨ state.last.start ≤ rest.stop ∨
      state.last.extent.Continues rest.extent (tolerance.slack trace.interval)) :
    ¬ state.IsStraggler tolerance trace := by
  rintro ⟨other, remains, ahead, apart⟩
  obtain rfl : other = rest := Except.ok.inj (remains.cut.symm.trans cut)
  rcases reaches with isEmpty | reaches | adjacent
  · exact remains.nonempty isEmpty
  · exact absurd ahead (not_lt.mpr reaches)
  · exact apart adjacent

/-- A step keeps the segments in order exactly if it does not meet a straggler. -/
theorem Added.inOrder_iff (added : Added (tolerance.slack trace.interval) state trace next)
    (positive : 0 < interval) (uniform : state.Uniform interval) (taken : trace.TakenAt interval) :
    InOrder next.segments ↔ InOrder state.segments ∧ ¬ state.IsStraggler tolerance trace := by
  have lastOrder := uniform.last.start_le_stop positive.le
  have restOrder {rest : Trace} (remains : state.Remains trace rest) : rest.start ≤ rest.stop :=
    (remains.takenAt taken).start_le_stop positive.le
  cases added with
  | skipped rest cut isEmpty =>
      rw [and_iff_left (not_isStraggler cut (.inl isEmpty))]
  | covered rest remains starts stops =>
      have reaches := starts.trans (restOrder remains)
      rw [and_iff_left (not_isStraggler remains.cut (.inr (.inl reaches)))]
  | continued rest remains behind adjacent =>
      have reaches := lastOrder.trans (behind.le.trans (restOrder remains))
      rw [and_iff_left (not_isStraggler remains.cut (.inr (.inl reaches)))]
      exact inOrder_withLast_iff rfl
  | extended rest remains starts meets inStep =>
      have reaches := starts.trans (restOrder remains)
      rw [and_iff_left (not_isStraggler remains.cut (.inr (.inl reaches)))]
      exact inOrder_withLast_iff rfl
  | preceded rest remains ahead adjacent =>
      rw [and_iff_left (not_isStraggler remains.cut (.inr (.inr adjacent)))]
      exact inOrder_withEarlierLast_iff positive uniform remains rfl
        ((restOrder remains).trans ahead.le)
  | led rest remains ahead isMet inStep =>
      rw [and_iff_left (not_isStraggler remains.cut (.inr (.inl isMet)))]
      exact inOrder_withEarlierLast_iff positive uniform remains rfl ahead.le
  | opened rest remains behind apart =>
      have reaches := lastOrder.trans (behind.le.trans (restOrder remains))
      rw [and_iff_left (not_isStraggler remains.cut (.inr (.inl reaches)))]
      exact inOrder_pushBehind_iff positive uniform behind
  | straggled rest remains ahead apart =>
      have early := (restOrder remains).trans (ahead.le.trans lastOrder)
      exact iff_of_false (not_inOrder_push early) fun ordered =>
        ordered.2 ⟨rest, remains, ahead, apart⟩
  | discarded rest later remains meets isMet outOfStep cut isEmpty =>
      rw [and_iff_left (not_isStraggler remains.cut (.inr (.inl isMet)))]
      exact Iff.rfl
  | corrected rest later remains meets isMet outOfStep cut laterTaken behind =>
      rw [and_iff_left (not_isStraggler remains.cut (.inr (.inl isMet)))]
      have counted : ({ state with corrections := state.corrections + 1 } : Segmentation).Uniform
        interval := uniform
      exact inOrder_pushBehind_iff positive counted behind

/-- A run over traces of one interval succeeds. It leaves the segments in order exactly if it met no
straggler. -/
theorem foldlM_add (tolerance : Tolerance) (traces : List Trace) (positive : 0 < interval)
    (uniform : state.Uniform interval) (taken : ∀ trace ∈ traces, trace.TakenAt interval) :
    ∃ final, traces.foldlM (add tolerance) state = .ok final ∧ final.Uniform interval ∧
      (InOrder final.segments ↔
        InOrder state.segments ∧ ¬ state.MeetsStraggler tolerance traces) := by
  induction traces generalizing state with
  | nil => exact ⟨state, rfl, uniform, by simp [MeetsStraggler]⟩
  | cons trace later ih =>
      have traceTaken := taken trace List.mem_cons_self
      obtain ⟨next, isNext, added⟩ := add_cases tolerance positive uniform.last traceTaken
      rw [← traceTaken.interval_eq] at added
      obtain ⟨final, isFinal, finalUniform, ordered⟩ := ih (added.uniform uniform traceTaken)
        (fun other member => taken other (List.mem_cons_of_mem trace member))
      refine ⟨final, ?_, finalUniform, ?_⟩
      · rw [List.foldlM_cons, isNext]
        exact isFinal
      · rw [ordered, added.inOrder_iff positive uniform traceTaken]
        simp [MeetsStraggler, isNext, and_assoc]

end

end Segmentation

/-- Whether forming the segments of some traces meets a straggler. -/
def MeetsStraggler (tolerance : Tolerance) (traces : List Trace) : Prop :=
  match traces.mergeSort Trace.startsBy with
  | [] => False
  | first :: later => Segmentation.MeetsStraggler tolerance ⟨[], first, 0⟩ later

/-- Traces of one interval can be formed into segments, which are of that interval again, and which
are in order exactly if forming them meets no straggler. -/
theorem segmentTraces_spec (tolerance : Tolerance) {traces : List Trace} {interval : Int}
    (positive : 0 < interval) (taken : ∀ trace ∈ traces, trace.TakenAt interval) :
    ∃ segments corrections, segmentTraces tolerance traces = .ok (segments, corrections) ∧
      (∀ segment ∈ segments, segment.TakenAt interval) ∧
      (InOrder segments ↔ ¬ MeetsStraggler tolerance traces) := by
  have sortedTaken : ∀ trace ∈ traces.mergeSort Trace.startsBy, trace.TakenAt interval :=
    fun trace member => taken trace (List.mem_mergeSort.mp member)
  simp only [segmentTraces, MeetsStraggler]
  cases sorted : traces.mergeSort Trace.startsBy with
  | nil => exact ⟨[], 0, rfl, by simp, by simp [InOrder]⟩
  | cons first later =>
      rw [sorted] at sortedTaken
      have uniform : (⟨[], first, 0⟩ : Segmentation).Uniform interval := by
        intro segment member
        rw [List.mem_singleton.mp member]
        exact sortedTaken first List.mem_cons_self
      obtain ⟨final, isFinal, finalUniform, ordered⟩ := Segmentation.foldlM_add tolerance later
        positive uniform (fun trace member => sortedTaken trace (List.mem_cons_of_mem first member))
      refine ⟨final.segments, final.corrections, ?_, finalUniform, ?_⟩
      · dsimp only
        rw [isFinal]
        rfl
      · rw [ordered]
        simp [InOrder, Segmentation.segments]

/-- Of three traces, each out of step with the one before, the second keeps only what lies
behind the first, and what the third keeps above the first lies before that. -/
example :
    (segmentTraces Tolerance.standard [⟨0, 20, 50000, [1, 2, 3]⟩,
      ⟨25000, 20, 50000, [11, 12, 13, 14]⟩, ⟨60000, 20, 50000, [21, 22]⟩]).map
        (fun formed => formed.1.map Trace.start) = .ok [0, 125000, 110000] := by
  simp only [segmentTraces]
  rw [List.mergeSort_of_pairwise (by decide)]
  rfl

theorem segmentTraces_ofKey (tolerance : Tolerance) (key : TrackKey) :
    segmentTraces tolerance (Track.ofKey key).close.closed = .ok ([], 0) := by
  simp [segmentTraces, Track.close, Track.closedWorking, Track.ofKey]

namespace Demux

/-- Any records can be received and the run finished. The result lists under a key the segments that
the traces of its track form, if there are any. -/
theorem finish_lists (selection : Selection) (tolerance : Tolerance)
    (buffers : List (List UInt8)) :
    ∃ split, ((start selection tolerance).receiveRecords buffers).finish = .ok split ∧
      ∀ key segments, (key, segments) ∈ split.tracks ↔
        segments ≠ [] ∧ ∃ corrections, segmentTraces tolerance
          (((start selection tolerance).receiveRecords buffers).trackOf key).close.closed =
            .ok (segments, corrections) := by
  have wellFormed := (wellFormed_start selection tolerance).receiveRecords buffers
  have sameTolerance : ((start selection tolerance).receiveRecords buffers).tolerance = tolerance :=
    tolerance_receiveRecords (start selection tolerance) buffers
  generalize (start selection tolerance).receiveRecords buffers = demux at *
  subst sameTolerance
  obtain ⟨split, isSplit, listed⟩ := finish_spec fun track member =>
    let ⟨segments, corrections, formed, _⟩ := segmentTraces_spec demux.tolerance
      (wellFormed.tracks track member).positive (wellFormed.tracks track member).mem_close
    ⟨segments, corrections, formed⟩
  refine ⟨split, isSplit, ?_⟩
  intro key segments
  rw [listed]
  refine and_congr_right fun nonempty => ⟨?_, ?_⟩
  · rintro ⟨track, member, rfl, corrections, formed⟩
    rw [wellFormed.trackOf_eq member]
    exact ⟨corrections, formed⟩
  · rintro ⟨corrections, formed⟩
    rcases demux.trackOf_mem_or key with member | isNew
    · exact ⟨demux.trackOf key, member, demux.key_trackOf key, corrections, formed⟩
    · rw [isNew, segmentTraces_ofKey] at formed
      cases formed
      exact absurd rfl nonempty

/-- Any records can be received and the run finished. The segments of every track have samples,
taken at the interval of its key, and are in order without overlapping exactly if forming them
meets no straggler. -/
theorem finish_inOrder_iff (selection : Selection) (tolerance : Tolerance)
    (buffers : List (List UInt8)) :
    ∃ split, ((start selection tolerance).receiveRecords buffers).finish = .ok split ∧
      ∀ key segments, (key, segments) ∈ split.tracks →
        segments ≠ [] ∧ (∀ segment ∈ segments, segment.TakenAt key.interval) ∧
          (InOrder segments ↔ ¬ MeetsStraggler tolerance
            (((start selection tolerance).receiveRecords buffers).trackOf key).close.closed) := by
  have wellFormed := (wellFormed_start selection tolerance).receiveRecords buffers
  obtain ⟨split, isSplit, listed⟩ := finish_lists selection tolerance buffers
  generalize (start selection tolerance).receiveRecords buffers = demux at *
  refine ⟨split, isSplit, ?_⟩
  intro key segments member
  obtain ⟨nonempty, corrections, formed⟩ := (listed key segments).mp member
  rcases demux.trackOf_mem_or key with isTrack | isNew
  · have trackWellFormed := wellFormed.tracks (demux.trackOf key) isTrack
    obtain ⟨_, _, alsoFormed, taken, ordered⟩ :=
      segmentTraces_spec tolerance trackWellFormed.positive trackWellFormed.mem_close
    cases formed.symm.trans alsoFormed
    rw [key_trackOf] at taken
    exact ⟨nonempty, taken, ordered⟩
  · rw [isNew, segmentTraces_ofKey] at formed
    cases formed
    exact absurd rfl nonempty

end Demux

end Waveform
