import Waveform.Proofs.Demux.Isolation
import Waveform.Proofs.Demux.SegmentValues

/-!
# Repeated records

A record that comes once more closes the working trace of its track, so that the records after it
are measured against its own end. It therefore leaves the segments as they are only if the records
of its key start whole intervals apart. Where they do, the segments lie where they lay, and if the
records agree at the times that several of them give, the segments have the same samples as well.
-/

namespace Waveform

/-- Whether traces start whole intervals apart. -/
def Aligned (interval : Int) (traces : List Trace) : Prop :=
  ∀ first ∈ traces, ∀ second ∈ traces, interval ∣ first.start - second.start

theorem Aligned.exists_base {interval : Int} {traces : List Trace}
    (aligned : Aligned interval traces) :
    ∃ base, ∀ trace ∈ traces, interval ∣ trace.start - base := by
  cases traces with
  | nil => exact ⟨0, by simp⟩
  | cons first later =>
      exact ⟨first.start, fun trace member => aligned trace member first List.mem_cons_self⟩

/-- The segments that a result lists under a key. -/
def Split.segmentsUnder (split : Split) (key : TrackKey) : List Trace :=
  (split.tracks.lookup key).getD []

/-- The list that is found is the one of the items, which may be none. -/
theorem Demux.getD_entryOf {α : Type} (items : List α) : (entryOf items).getD [] = items := by
  simp only [entryOf]
  split
  next isEmpty => rw [isEmpty]; rfl
  next => rfl

namespace Demux

/-- A run over well-formed tracks lists under a key the segments that the traces of its track
form. -/
theorem WellFormed.segmentsUnder {demux : Demux} (wellFormed : demux.WellFormed) {split : Split}
    (isSplit : demux.finish = .ok split) (key : TrackKey) :
    ∃ corrections, segmentTraces demux.tolerance (demux.trackOf key).close.closed =
      .ok (split.segmentsUnder key, corrections) := by
  obtain ⟨_, isFinished, under⟩ := wellFormed.finish_under
  obtain rfl := Except.ok.inj (isSplit.symm.trans isFinished)
  obtain ⟨finished, isTrack, sameListing⟩ := under key
  have sameSegments : split.segmentsUnder key = finished.segments := by
    have isFound : split.tracks.lookup key = entryOf finished.segments :=
      congrArg Prod.fst sameListing
    rw [Split.segmentsUnder, isFound, getD_entryOf]
  obtain ⟨segments, corrections, formed, rfl⟩ := finishTrack_eq_ok_iff.mp isTrack
  exact ⟨corrections, by rw [sameSegments, formed]⟩

section

variable {selection : Selection} {tolerance : Tolerance} {key : TrackKey}
  {buffers otherBuffers : List (List UInt8)} {split otherSplit : Split}

/-- Without records of a key there are no segments under it. -/
theorem segmentsUnder_of_noneKept (noneKept : selection.keptUnder key buffers = [])
    (isSplit : ((start selection tolerance).receiveRecords buffers).finish = .ok split) :
    split.segmentsUnder key = [] := by
  have wellFormed := (wellFormed_start selection tolerance).receiveRecords buffers
  obtain ⟨corrections, formed⟩ := wellFormed.segmentsUnder isSplit key
  have isNew : ((start selection tolerance).receiveRecords buffers).trackOf key =
      Track.ofKey key := by
    rw [trackOf_receiveRecords]
    change (selection.keptUnder key buffers).foldl _ _ = _
    rw [noneKept]
    rfl
  rw [isNew, segmentTraces_ofKey] at formed
  exact (Prod.mk.inj (Except.ok.inj formed)).1.symm

/-- The segments under a key are formed of traces that give what its records give, if these are
aligned. -/
theorem exists_gathered {base : Int} (positive : 0 < key.interval)
    (slackSmall : tolerance.slack key.interval < key.interval)
    (aligned : ∀ trace ∈ selection.decodedUnder key buffers, key.interval ∣ trace.start - base)
    (isSplit : ((start selection tolerance).receiveRecords buffers).finish = .ok split) :
    ∃ traces corrections,
      segmentTraces tolerance traces = .ok (split.segmentsUnder key, corrections) ∧
      (∀ trace ∈ traces, trace.TakenAt key.interval) ∧
      (∀ trace ∈ traces, key.interval ∣ trace.start - base) ∧
      ∀ time value, GivenBy traces time value ↔
        GivenBy (selection.decodedUnder key buffers) time value := by
  have wellFormed := (wellFormed_start selection tolerance).receiveRecords buffers
  obtain ⟨corrections, formed⟩ := wellFormed.segmentsUnder isSplit key
  rw [tolerance_receiveRecords] at formed
  have gathered := trackOf_gathered selection tolerance positive slackSmall aligned
  have sameKey := ((start selection tolerance).receiveRecords buffers).key_trackOf key
  generalize ((start selection tolerance).receiveRecords buffers).trackOf key = track at *
  subst sameKey
  exact ⟨track.close.closed, corrections, formed, gathered.wellFormed.mem_close, gathered.aligned,
    gathered.givenBy_iff⟩

/-- A record that is kept can be repeated without changing which records are kept. -/
theorem mem_keptUnder_repeat {before later : List (List UInt8)} {bytes : List UInt8}
    (repeated : bytes ∈ before) {record : Record} :
    record ∈ selection.keptUnder key (before ++ bytes :: later) ↔
      record ∈ selection.keptUnder key (before ++ later) := by
  simp only [Selection.keptUnder, List.mem_filterMap, List.mem_append, List.mem_cons]
  grind

theorem mem_decodedUnder_congr
    (sameKept : ∀ record, record ∈ selection.keptUnder key buffers ↔
      record ∈ selection.keptUnder key otherBuffers) {trace : Trace} :
    trace ∈ selection.decodedUnder key buffers ↔
      trace ∈ selection.decodedUnder key otherBuffers := by
  simp only [Selection.decodedUnder, decodedTraces, List.mem_filterMap]
  simp only [sameKept]

/-- Runs over the same aligned records of a key, in whichever order and however often they come,
list segments under it that lie in the same places. -/
theorem extents_under_eq {record : Record} (isKept : record ∈ selection.keptUnder key buffers)
    (slackSmall : tolerance.slack key.interval < key.interval)
    (sameKept : ∀ record, record ∈ selection.keptUnder key buffers ↔
      record ∈ selection.keptUnder key otherBuffers)
    (aligned : Aligned key.interval (selection.decodedUnder key buffers))
    (isSplit : ((start selection tolerance).receiveRecords buffers).finish = .ok split)
    (isOther : ((start selection tolerance).receiveRecords otherBuffers).finish =
      .ok otherSplit) :
    (split.segmentsUnder key).map Trace.extent =
      (otherSplit.segmentsUnder key).map Trace.extent := by
  have positive := Selection.pos_of_keptUnder isKept
  have sameTraces (trace : Trace) : trace ∈ selection.decodedUnder key buffers ↔
      trace ∈ selection.decodedUnder key otherBuffers := mem_decodedUnder_congr sameKept
  obtain ⟨base, fromBase⟩ := aligned.exists_base
  have otherFromBase : ∀ trace ∈ selection.decodedUnder key otherBuffers,
      key.interval ∣ trace.start - base :=
    fun trace member => fromBase trace ((sameTraces trace).mpr member)
  obtain ⟨traces, _, formed, taken, tracesAligned, gives⟩ :=
    exists_gathered positive slackSmall fromBase isSplit
  obtain ⟨others, _, othersFormed, othersTaken, othersAligned, othersGive⟩ :=
    exists_gathered positive slackSmall otherFromBase isOther
  refine segmentTraces_extents_eq positive slackSmall taken othersTaken tracesAligned
    othersAligned ?_ formed othersFormed
  intro time
  simp only [gives, othersGive, givenBy_congr sameTraces]

/-- The segments under a key whose records are aligned and agree are the runs of what these give. -/
theorem areRuns_under (positive : 0 < key.interval)
    (slackSmall : tolerance.slack key.interval < key.interval)
    (consistent : Consistent key.interval (selection.decodedUnder key buffers))
    (isSplit : ((start selection tolerance).receiveRecords buffers).finish = .ok split) :
    AreRuns key.interval (GivenBy (selection.decodedUnder key buffers))
      (split.segmentsUnder key) := by
  obtain ⟨base, fromBase⟩ := consistent.exists_base
  obtain ⟨traces, _, formed, taken, aligned, gives⟩ :=
    exists_gathered positive slackSmall fromBase isSplit
  obtain ⟨segments, _, isFormed, areRuns, _⟩ :=
    segmentTraces_areRuns tolerance positive slackSmall taken aligned (by
      intro time value other isGiven alsoGiven
      exact consistent.agree time value other ((gives time value).mp isGiven)
        ((gives time other).mp alsoGiven))
  have isSame := Except.ok.inj (formed.symm.trans isFormed)
  rw [Prod.mk.injEq] at isSame
  rw [isSame.1]
  exact areRuns.congr gives

/-- They have the same samples as well, if the records agree. -/
theorem contents_under_eq {record : Record} (isKept : record ∈ selection.keptUnder key buffers)
    (slackSmall : tolerance.slack key.interval < key.interval)
    (sameKept : ∀ record, record ∈ selection.keptUnder key buffers ↔
      record ∈ selection.keptUnder key otherBuffers)
    (consistent : Consistent key.interval (selection.decodedUnder key buffers))
    (isSplit : ((start selection tolerance).receiveRecords buffers).finish = .ok split)
    (isOther : ((start selection tolerance).receiveRecords otherBuffers).finish =
      .ok otherSplit) :
    (split.segmentsUnder key).map (fun segment => (segment.start, segment.samples)) =
      (otherSplit.segmentsUnder key).map fun segment => (segment.start, segment.samples) := by
  have positive := Selection.pos_of_keptUnder isKept
  have sameTraces (trace : Trace) : trace ∈ selection.decodedUnder key buffers ↔
      trace ∈ selection.decodedUnder key otherBuffers := mem_decodedUnder_congr sameKept
  have otherConsistent : Consistent key.interval (selection.decodedUnder key otherBuffers) := by
    constructor
    case aligned =>
      intro first isFirst second isSecond
      exact consistent.aligned first ((sameTraces first).mpr isFirst) second
        ((sameTraces second).mpr isSecond)
    case agree =>
      intro time value other isGiven alsoGiven
      exact consistent.agree time value other ((givenBy_congr sameTraces).mpr isGiven)
        ((givenBy_congr sameTraces).mpr alsoGiven)
  have areRuns := areRuns_under positive slackSmall consistent isSplit
  have otherRuns := areRuns_under positive slackSmall otherConsistent isOther
  exact (areRuns.congr fun _ _ => givenBy_congr sameTraces).unique otherRuns positive

end

/-- A second copy of a record, at any later place, leaves what is listed under other keys as it is.
Under its own key the segments lie where they lay if the records of this key start whole intervals
apart, and have the same samples if these records agree as well. -/
theorem finish_repeated (selection : Selection) (key : TrackKey)
    {before later : List (List UInt8)} {bytes : List UInt8} (repeated : bytes ∈ before) :
    ∃ once twice,
      ((start selection Tolerance.standard).receiveRecords (before ++ later)).finish = .ok once ∧
      ((start selection Tolerance.standard).receiveRecords (before ++ bytes :: later)).finish =
        .ok twice ∧
      (selection.keepsUnder key bytes = false → twice.under key = once.under key) ∧
      (Aligned key.interval (selection.decodedUnder key (before ++ later)) →
        (twice.segmentsUnder key).map Trace.extent = (once.segmentsUnder key).map Trace.extent) ∧
      (Consistent key.interval (selection.decodedUnder key (before ++ later)) →
        (twice.segmentsUnder key).map (fun segment => (segment.start, segment.samples)) =
          (once.segmentsUnder key).map fun segment => (segment.start, segment.samples)) := by
  obtain ⟨once, isOnce, _⟩ := finish_lists selection Tolerance.standard (before ++ later)
  obtain ⟨twice, isTwice, _⟩ := finish_lists selection Tolerance.standard (before ++ bytes :: later)
  have sameKept (record : Record) : record ∈ selection.keptUnder key (before ++ later) ↔
      record ∈ selection.keptUnder key (before ++ bytes :: later) :=
    (mem_keptUnder_repeat repeated).symm
  refine ⟨once, twice, isOnce, isTwice, ?_, ?_⟩
  · intro isLeftOut
    refine under_eq_of_keptUnder_eq ?_ isTwice isOnce
    rw [← selection.keptUnder_filter, ← selection.keptUnder_filter key (before ++ later)]
    simp [isLeftOut]
  · rcases List.eq_nil_or_concat (selection.keptUnder key (before ++ later))
      with noneKept | ⟨_, record, isConcat⟩
    · have noneTwice : selection.keptUnder key (before ++ bytes :: later) = [] := by
        rw [List.eq_nil_iff_forall_not_mem] at noneKept ⊢
        exact fun record => mt (sameKept record).mpr (noneKept record)
      simp [segmentsUnder_of_noneKept noneKept isOnce, segmentsUnder_of_noneKept noneTwice isTwice]
    · have isKept : record ∈ selection.keptUnder key (before ++ later) := by simp [isConcat]
      have slackSmall := Tolerance.slack_standard_lt (Selection.legal_of_keptUnder isKept)
      constructor
      · intro aligned
        exact (extents_under_eq isKept slackSmall sameKept aligned isOnce isTwice).symm
      · intro consistent
        exact (contents_under_eq isKept slackSmall sameKept consistent isOnce isTwice).symm

/-- A third copy of a record leaves the segments where two copies put them. -/
theorem finish_repeated_brief :
    ∃ once twice,
      ((start Selection.everything Tolerance.standard).receiveRecords
        [briefRecord, briefRecord]).finish = .ok once ∧
      ((start Selection.everything Tolerance.standard).receiveRecords
        [briefRecord, briefRecord, briefRecord]).finish = .ok twice ∧
      (twice.segmentsUnder briefKey).map Trace.extent =
        (once.segmentsUnder briefKey).map Trace.extent := by
  have aligned : Aligned briefKey.interval
      (Selection.everything.decodedUnder briefKey [briefRecord, briefRecord]) := by
    rw [decodedUnder_briefRecord]
    simp [Aligned]
  obtain ⟨once, twice, isOnce, isTwice, _, sameExtents, _⟩ :=
    @finish_repeated Selection.everything briefKey [briefRecord, briefRecord] [] briefRecord
      List.mem_cons_self
  exact ⟨once, twice, isOnce, isTwice, sameExtents aligned⟩

/-- The alignment is needed. Of the records of samples 1 and 2, 3 and 4, 5 and 6, 7 and 8 the third
comes 400 microseconds late and the last one 800, which is a gap behind the first three. A copy of
the first record before the third one makes the last two follow each other, and the gap is lost. -/
example :
    (segmentTraces Tolerance.standard [⟨0, 20, 50000, [1, 2, 3, 4, 5, 6]⟩,
        ⟨300800, 20, 50000, [7, 8]⟩]).map (fun formed => formed.1.map Trace.start) =
          .ok [0, 300800] ∧
      (segmentTraces Tolerance.standard [⟨0, 20, 50000, [1, 2, 3, 4]⟩, ⟨0, 20, 50000, [1, 2]⟩,
        ⟨200400, 20, 50000, [5, 6, 7, 8]⟩]).map (fun formed => formed.1.map Trace.start) =
          .ok [0] := by
  simp only [segmentTraces]
  rw [List.mergeSort_of_pairwise (by decide), List.mergeSort_of_pairwise (by decide)]
  exact ⟨rfl, rfl⟩

end Demux

end Waveform
