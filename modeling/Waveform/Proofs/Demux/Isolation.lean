import Waveform.Proofs.Demux.StoredRuns

/-!
# Isolation of tracks

What a run lists under a key depends on the records that are kept under this key and on their order,
and on nothing else: neither on the records of other keys, which use the same pool, nor on those
that are discarded, nor on what else the pools hold.
-/

namespace Waveform

/-- Whether the bytes of a record are kept under a key. -/
def Selection.keepsUnder (selection : Selection) (key : TrackKey) (bytes : List UInt8) : Bool :=
  ((Verdict.ofBytes selection bytes).keptUnder? key).isSome

/-- The segments, the clock qualities and the calibrations that a result lists under a key. -/
def Split.under (split : Split) (key : TrackKey) :
    Option (List Trace) × Option (List Nat) × Option (List Calibration) :=
  (split.tracks.lookup key, split.qualities.lookup key, split.calibrations.lookup key)

/-- Buffers that are not kept under a key leave no records under it. -/
theorem Selection.keptUnder_filter (selection : Selection) (key : TrackKey)
    (buffers : List (List UInt8)) :
    selection.keptUnder key (buffers.filter (selection.keepsUnder key)) =
      selection.keptUnder key buffers := by
  induction buffers with
  | nil => rfl
  | cons bytes later ih =>
      simp only [keptUnder] at ih ⊢
      cases isKept : (Verdict.ofBytes selection bytes).keptUnder? key with
      | none =>
          have isLeftOut : ¬ selection.keepsUnder key bytes = true := by simp [keepsUnder, isKept]
          rw [List.filter_cons_of_neg isLeftOut, ih, List.filterMap_cons, isKept]
      | some record =>
          have isTaken : selection.keepsUnder key bytes = true := by simp [keepsUnder, isKept]
          rw [List.filter_cons_of_pos isTaken, List.filterMap_cons, List.filterMap_cons, ih]

/-- Among entries of different keys the one that is found under a key is the one that is listed. -/
theorem lookup_eq_some_iff {α : Type} {entries : List (TrackKey × α)}
    (distinct : (entries.map Prod.fst).Nodup) {key : TrackKey} {value : α} :
    entries.lookup key = some value ↔ (key, value) ∈ entries := by
  induction entries with
  | nil => simp
  | cons entry later ih =>
      obtain ⟨otherKey, other⟩ := entry
      obtain ⟨isNew, laterDistinct⟩ := List.nodup_cons.mp distinct
      by_cases same : key = otherKey
      · subst same
        have notLater : (key, value) ∉ later :=
          fun member => isNew (List.mem_map.mpr ⟨(key, value), member, rfl⟩)
        simp [notLater, eq_comm]
      · have isOther : (key == otherKey) = false := beq_eq_false_iff_ne.mpr same
        simp [List.lookup_cons, isOther, ih laterDistinct, same]

namespace Demux

/-- The items that are listed, none if there are no items. -/
def entryOf {α : Type} (items : List α) : Option (List α) := if items = [] then none else some items

theorem entryOf_eq_some_iff {α : Type} {items values : List α} :
    entryOf items = some values ↔ values ≠ [] ∧ items = values := by
  simp only [entryOf]
  split
  next isEmpty => simp [isEmpty, eq_comm]
  next nonempty =>
    simp only [Option.some.injEq, iff_and_self]
    rintro rfl
    exact nonempty

/-- What a finished track lists under its key. -/
def FinishedTrack.listing (finished : FinishedTrack) :
    Option (List Trace) × Option (List Nat) × Option (List Calibration) :=
  (entryOf finished.segments, entryOf finished.qualities, entryOf finished.calibrations)

section

variable {finished : List FinishedTrack} {key : TrackKey}

theorem distinct_listed {α : Type} (distinct : (finished.map FinishedTrack.key).Nodup)
    (items : FinishedTrack → List α) : ((listed finished items).map Prod.fst).Nodup := by
  simp only [listed]
  refine List.Nodup.sublist ?_ distinct
  have isSublist := (List.filter_sublist (l := finished.map fun track => (track.key, items track))
    (p := fun entry => !entry.2.isEmpty)).map Prod.fst
  simpa [Function.comp_def] using isSublist

/-- Under the key of a finished track are the items of this track. -/
theorem lookup_listed_of_mem {α : Type} (distinct : (finished.map FinishedTrack.key).Nodup)
    {track : FinishedTrack} (member : track ∈ finished) (items : FinishedTrack → List α) :
    (listed finished items).lookup track.key = entryOf (items track) := by
  apply Option.ext
  intro values
  rw [lookup_eq_some_iff (distinct_listed distinct items), mem_listed, entryOf_eq_some_iff]
  refine and_congr_right fun _ => ⟨?_, fun sameItems => ⟨track, member, rfl, sameItems⟩⟩
  rintro ⟨other, isOther, sameKey, sameItems⟩
  rw [List.inj_on_of_nodup_map distinct member isOther sameKey.symm]
  exact sameItems

/-- Nothing is listed under a key of which there is no finished track. -/
theorem lookup_listed_of_notMem {α : Type} (distinct : (finished.map FinishedTrack.key).Nodup)
    (absent : key ∉ finished.map FinishedTrack.key) (items : FinishedTrack → List α) :
    (listed finished items).lookup key = none := by
  apply Option.ext
  intro values
  rw [lookup_eq_some_iff (distinct_listed distinct items), mem_listed]
  simp only [reduceCtorEq, iff_false, not_and]
  rintro _ ⟨track, member, rfl, _⟩
  exact absent (List.mem_map_of_mem member)

end

/-- Finished tracks have the keys of the tracks. -/
theorem keys_of_mapM_finishTrack {tolerance : Tolerance} {tracks : List Track}
    {finished : List FinishedTrack}
    (areFinished : tracks.mapM (finishTrack tolerance) = .ok finished) :
    finished.map FinishedTrack.key = tracks.map Track.key := by
  rw [mapM_eq_ok_iff] at areFinished
  induction areFinished with
  | nil => rfl
  | cons isFirst _ ih =>
      obtain ⟨_, _, _, rfl⟩ := finishTrack_eq_ok_iff.mp isFirst
      rw [List.map_cons, List.map_cons, ih]

/-- A run over well-formed tracks can be finished, and the result lists under each key what the
track of this key, finished alone, lists. -/
theorem WellFormed.finish_under {demux : Demux} (wellFormed : demux.WellFormed) :
    ∃ split, demux.finish = .ok split ∧ ∀ key, ∃ finished,
      finishTrack demux.tolerance (demux.trackOf key) = .ok finished ∧
      split.under key = finished.listing := by
  have defined : ∀ track ∈ demux.tracks, ∃ finished,
      finishTrack demux.tolerance track = .ok finished := by
    intro track member
    have formed := wellFormed.tracks track member
    obtain ⟨segments, corrections, isFormed, _⟩ :=
      segmentTraces_spec demux.tolerance formed.positive formed.mem_close
    exact ⟨_, finishTrack_eq_ok_iff.mpr ⟨segments, corrections, isFormed, rfl⟩⟩
  obtain ⟨finished, areFinished, mem_finished⟩ := mapM_of_forall_ok defined
  refine ⟨_, finish_eq_ok_iff.mpr ⟨finished, areFinished, rfl⟩, fun key => ?_⟩
  let sorted := finished.mergeSort fun first second => first.key.le second.key
  have isPerm : sorted.Perm finished := List.mergeSort_perm finished _
  have sameKeys := keys_of_mapM_finishTrack areFinished
  have distinct : (sorted.map FinishedTrack.key).Nodup := by
    rw [(isPerm.map FinishedTrack.key).nodup_iff, sameKeys]
    exact wellFormed.keys
  simp only [Split.under, splitOf, FinishedTrack.listing]
  by_cases present : key ∈ demux.tracks.map Track.key
  · obtain ⟨track, member, rfl⟩ := List.mem_map.mp present
    obtain ⟨result, isResult⟩ := defined track member
    have isFinished := isPerm.mem_iff.mpr ((mem_finished result).mpr ⟨track, member, isResult⟩)
    refine ⟨result, by rw [wellFormed.trackOf_eq member]; exact isResult, ?_⟩
    obtain ⟨_, _, _, rfl⟩ := finishTrack_eq_ok_iff.mp isResult
    rw [lookup_listed_of_mem distinct isFinished,
      lookup_listed_of_mem distinct isFinished, lookup_listed_of_mem distinct isFinished]
  · have absent : key ∉ sorted.map FinishedTrack.key := by
      rw [(isPerm.map FinishedTrack.key).mem_iff, sameKeys]
      exact present
    have isNew : demux.trackOf key = Track.ofKey key :=
      (demux.trackOf_mem_or key).resolve_left fun member =>
        present (List.mem_map.mpr ⟨demux.trackOf key, member, demux.key_trackOf key⟩)
    refine ⟨⟨key, [], 0, [], []⟩, by rw [isNew, finishTrack, segmentTraces_ofKey]; rfl, ?_⟩
    rw [lookup_listed_of_notMem distinct absent, lookup_listed_of_notMem distinct absent,
      lookup_listed_of_notMem distinct absent]
    rfl

/-- Two runs whose tracks of a key are the same list the same under this key. -/
theorem under_eq_of_trackOf_eq {first second : Demux} (firstFormed : first.WellFormed)
    (secondFormed : second.WellFormed) (sameTolerance : first.tolerance = second.tolerance)
    {key : TrackKey} (sameTrack : first.trackOf key = second.trackOf key)
    {firstSplit secondSplit : Split} (isFirst : first.finish = .ok firstSplit)
    (isSecond : second.finish = .ok secondSplit) :
    firstSplit.under key = secondSplit.under key := by
  obtain ⟨_, isSplit, firstUnder⟩ := firstFormed.finish_under
  obtain rfl := Except.ok.inj (isFirst.symm.trans isSplit)
  obtain ⟨_, isSplit, secondUnder⟩ := secondFormed.finish_under
  obtain rfl := Except.ok.inj (isSecond.symm.trans isSplit)
  obtain ⟨finished, isFinished, isListed⟩ := firstUnder key
  obtain ⟨other, isOther, otherListed⟩ := secondUnder key
  rw [sameTolerance, sameTrack] at isFinished
  obtain rfl := Except.ok.inj (isFinished.symm.trans isOther)
  rw [isListed, otherListed]

/-- Runs over the same records of a key list the same under it. -/
theorem under_eq_of_keptUnder_eq {selection : Selection} {tolerance : Tolerance} {key : TrackKey}
    {first second : List (List UInt8)}
    (sameKept : selection.keptUnder key first = selection.keptUnder key second)
    {firstSplit secondSplit : Split}
    (isFirst : ((start selection tolerance).receiveRecords first).finish = .ok firstSplit)
    (isSecond : ((start selection tolerance).receiveRecords second).finish = .ok secondSplit) :
    firstSplit.under key = secondSplit.under key := by
  have wellFormed (buffers : List (List UInt8)) :=
    (wellFormed_start selection tolerance).receiveRecords buffers
  refine under_eq_of_trackOf_eq (wellFormed first) (wellFormed second) ?_ ?_ isFirst isSecond
  · rw [tolerance_receiveRecords, tolerance_receiveRecords]
  · rw [trackOf_receiveRecords, trackOf_receiveRecords]
    simp only [start, sameKept]

end Demux

namespace StoredDemux

variable {blockSizes : List Nat} {pools : List Pool} {others : List (StoredTrace × Trace)}
  {pool : Nat}

/-- Any records can be received in a pool and the run finished, which comes to what the run without
pools comes to. -/
theorem splitRecords_eq (selection : Selection) (tolerance : Tolerance)
    (holds : Holds blockSizes pools others) (inside : pool < blockSizes.length)
    (buffers : List (List UInt8)) :
    ∃ split segments changed,
      (start selection tolerance pool).splitRecords buffers pools =
        (.ok (split, segments), changed) ∧
      ((Demux.start selection tolerance).receiveRecords buffers).finish = .ok split := by
  obtain ⟨final, between, isReceived, isPlain, wellFormed, finalHolds⟩ :=
    PairedDemux.receiveRecords_start holds inside selection tolerance buffers
  obtain ⟨split, segments, changed, isFinished, isPlainSplit, _⟩ :=
    PairedDemux.finish_spec finalHolds wellFormed
  refine ⟨split, segments.map Prod.fst, changed, ?_, ?_⟩
  · exact (Process.bind_of_ok isReceived _).trans isFinished
  · rw [isPlain, isPlainSplit]

/-- What a run lists under a key is what the records that are kept under this key lead to alone. It
is the same for all records among which these are the same in the same order, in any pool, whatever
else the pools hold. -/
theorem splitRecords_isolates (selection : Selection) (tolerance : Tolerance) (key : TrackKey)
    (holds : Holds blockSizes pools others) (inside : pool < blockSizes.length)
    (buffers : List (List UInt8)) :
    ∃ split segments changed alone aloneSegments aloneChanged,
      (start selection tolerance pool).splitRecords buffers pools =
        (.ok (split, segments), changed) ∧
      (start selection tolerance pool).splitRecords (buffers.filter (selection.keepsUnder key))
        pools = (.ok (alone, aloneSegments), aloneChanged) ∧
      split.under key = alone.under key ∧
      ∀ otherSizes otherPools otherTraces otherPool,
        Holds otherSizes otherPools otherTraces → otherPool < otherSizes.length →
        ∀ otherBuffers,
          otherBuffers.filter (selection.keepsUnder key) =
            buffers.filter (selection.keepsUnder key) →
          ∃ otherSplit otherSegments otherChanged,
            (start selection tolerance otherPool).splitRecords otherBuffers otherPools =
              (.ok (otherSplit, otherSegments), otherChanged) ∧
            otherSplit.under key = split.under key := by
  have sameKept {first second : List (List UInt8)}
      (same : first.filter (selection.keepsUnder key) = second.filter (selection.keepsUnder key)) :
      selection.keptUnder key first = selection.keptUnder key second := by
    rw [← selection.keptUnder_filter key first, same, selection.keptUnder_filter]
  obtain ⟨split, segments, changed, isSplit, isPlain⟩ :=
    splitRecords_eq selection tolerance holds inside buffers
  obtain ⟨alone, aloneSegments, aloneChanged, isAlone, alonePlain⟩ :=
    splitRecords_eq selection tolerance holds inside (buffers.filter (selection.keepsUnder key))
  refine ⟨split, segments, changed, alone, aloneSegments, aloneChanged, isSplit, isAlone,
    Demux.under_eq_of_keptUnder_eq (sameKept (by simp)) isPlain alonePlain, ?_⟩
  intro otherSizes otherPools otherTraces otherPool otherHolds otherInside otherBuffers same
  obtain ⟨otherSplit, otherSegments, otherChanged, isOther, otherPlain⟩ :=
    splitRecords_eq selection tolerance otherHolds otherInside otherBuffers
  exact ⟨otherSplit, otherSegments, otherChanged, isOther,
    Demux.under_eq_of_keptUnder_eq (sameKept same) otherPlain isPlain⟩

/-- Bytes that are no record do not change what the records before and after them lead to. -/
theorem splitRecords_isolates_corrupt :
    ∃ split segments changed other otherSegments otherChanged,
      (start Selection.everything Tolerance.standard 0).splitRecords
        [Demux.briefRecord, [1, 2, 3], Demux.briefRecord] [narrowPool] =
          (.ok (split, segments), changed) ∧
      (start Selection.everything Tolerance.standard 0).splitRecords
        [Demux.briefRecord, Demux.briefRecord] [narrowPool] =
          (.ok (other, otherSegments), otherChanged) ∧
      other.under Demux.briefKey = split.under Demux.briefKey := by
  have isLeftOut : Selection.everything.keepsUnder Demux.briefKey [1, 2, 3] = false := rfl
  have same : [Demux.briefRecord, Demux.briefRecord].filter
      (Selection.everything.keepsUnder Demux.briefKey) =
        [Demux.briefRecord, [1, 2, 3], Demux.briefRecord].filter
          (Selection.everything.keepsUnder Demux.briefKey) := by
    simp [List.filter_cons, isLeftOut]
  obtain ⟨split, segments, changed, _, _, _, isSplit, _, _, isolated⟩ :=
    splitRecords_isolates Selection.everything Tolerance.standard Demux.briefKey holds_narrowPool
      (by decide : 0 < 1) [Demux.briefRecord, [1, 2, 3], Demux.briefRecord]
  obtain ⟨other, otherSegments, otherChanged, isOther, sameUnder⟩ :=
    isolated [1] [narrowPool] [] 0 holds_narrowPool (by decide) _ same
  exact ⟨split, segments, changed, other, otherSegments, otherChanged, isSplit, isOther, sameUnder⟩

end StoredDemux

end Waveform
