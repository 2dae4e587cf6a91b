import Mathlib.Data.List.Forall2
import Mathlib.Data.List.Nodup
import Waveform.Demux.Demux
import Waveform.Proofs.Demux.SegmentSteps
import Waveform.Proofs.Record.Ranges

/-!
# Tracks of a run

After any number of records, the track of a key is what the records kept under that key make of an
empty track, whatever else was received. All tracks are well-formed: their traces are taken at the
interval of the key. Finishing lists, for every track, the segments that its traces form.
-/

namespace Waveform

namespace Verdict

variable {selection : Selection} {bytes : List UInt8} {record : Record} {key : TrackKey}

/-- A record that is kept has been decoded, and it is no heartbeat. -/
theorem decode_of_kept (isKept : ofBytes selection bytes = .kept record key) :
    Record.decode bytes = .ok record ∧ record.isHeartbeat = false := by
  rw [ofBytes] at isKept
  split at isKept
  next => cases isKept
  next decoded isDecoded =>
    split at isKept
    next => cases isKept
    next notHeartbeat =>
      have sameRecord : decoded = record := by
        split at isKept
        next => cases isKept
        next =>
          split at isKept
          next => cases isKept
          next =>
            cases isKept
            rfl
      subst sameRecord
      exact ⟨isDecoded, Bool.eq_false_of_not_eq_true notHeartbeat⟩

/-- A record that is kept announces samples, at most as many as a header can. -/
theorem sampleCount_of_kept (isKept : ofBytes selection bytes = .kept record key) :
    record.header.sampleCount ≠ 0 ∧ record.header.sampleCount < UInt16.size := by
  obtain ⟨isDecoded, notHeartbeat⟩ := decode_of_kept isKept
  exact ⟨by simpa [Record.isHeartbeat] using notHeartbeat, Record.sampleCount_lt isDecoded⟩

/-- The record that is kept under a key. -/
def keptUnder? (key : TrackKey) : Verdict → Option Record
  | .kept record other => if other = key then some record else none
  | _ => none

end Verdict

/-- The records among some bytes that are kept under a key, in order. -/
def Selection.keptUnder (selection : Selection) (key : TrackKey) (buffers : List (List UInt8)) :
    List Record :=
  buffers.filterMap fun bytes => (Verdict.ofBytes selection bytes).keptUnder? key

/-- A record that is kept under a key is the one that some of the bytes hold. -/
theorem Selection.exists_of_keptUnder {selection : Selection} {key : TrackKey}
    {buffers : List (List UInt8)} {record : Record}
    (member : record ∈ selection.keptUnder key buffers) :
    ∃ bytes ∈ buffers, Verdict.ofBytes selection bytes = .kept record key := by
  obtain ⟨bytes, isIn, isKept⟩ := List.mem_filterMap.mp member
  refine ⟨bytes, isIn, ?_⟩
  simp only [Verdict.keptUnder?] at isKept
  split at isKept
  next other verdict =>
    split at isKept
    next same =>
      subst same
      cases isKept
      exact verdict
    next => cases isKept
  next => cases isKept

/-- Records are kept only under keys of their intervals, which are legal. -/
theorem Selection.legal_of_keptUnder {selection : Selection} {key : TrackKey}
    {buffers : List (List UInt8)} {record : Record}
    (member : record ∈ selection.keptUnder key buffers) :
    SampleRate.interval? record.header.sampleRate = some key.interval := by
  obtain ⟨bytes, _, verdict⟩ := exists_of_keptUnder member
  exact Verdict.interval?_of_kept verdict

/-- Records are kept only if they announce samples, and no more than a header can. -/
theorem Selection.sampleCount_of_keptUnder {selection : Selection} {key : TrackKey}
    {buffers : List (List UInt8)} {record : Record}
    (member : record ∈ selection.keptUnder key buffers) :
    record.header.sampleCount ≠ 0 ∧ record.header.sampleCount < UInt16.size := by
  obtain ⟨bytes, _, verdict⟩ := exists_of_keptUnder member
  exact Verdict.sampleCount_of_kept verdict

/-- Records are kept only under keys of positive intervals. -/
theorem Selection.pos_of_keptUnder {selection : Selection} {key : TrackKey}
    {buffers : List (List UInt8)} {record : Record}
    (member : record ∈ selection.keptUnder key buffers) : 0 < key.interval :=
  SampleRate.pos_of_interval? (legal_of_keptUnder member)

/-! ## Items by key -/

section

variable {α : Type} {keyOf : α → TrackKey}

/-- After an item has been put, it is found under its key, and all others as before. -/
theorem find?_putByKey (item : α) (items : List α) (key : TrackKey) :
    (putByKey keyOf item items).find? (fun other => keyOf other = key) =
      if keyOf item = key then some item else items.find? (fun other => keyOf other = key) := by
  induction items with
  | nil => by_cases same : keyOf item = key <;> simp [putByKey, same]
  | cons other rest ih =>
      by_cases replaced : keyOf other = keyOf item
      · by_cases same : keyOf item = key <;> simp [putByKey, replaced, same]
      · by_cases found : keyOf other = key
        · have different : keyOf item ≠ key := fun same => replaced (found.trans same.symm)
          simp [putByKey, found, different, different.symm]
        · simp [putByKey, replaced, found, ih]

theorem mem_putByKey {item other : α} {items : List α}
    (member : other ∈ putByKey keyOf item items) : other = item ∨ other ∈ items := by
  induction items with
  | nil => simpa [putByKey] using member
  | cons first rest ih =>
      simp only [putByKey] at member
      split at member
      · rcases List.mem_cons.mp member with isItem | inRest
        · exact .inl isItem
        · exact .inr (List.mem_cons_of_mem first inRest)
      · rcases List.mem_cons.mp member with isFirst | inRest
        · exact .inr (isFirst ▸ List.mem_cons_self)
        · exact (ih inRest).imp_right (List.mem_cons_of_mem first)

theorem mem_putByKey_self (item : α) (items : List α) : item ∈ putByKey keyOf item items := by
  have found := @find?_putByKey α keyOf item items (keyOf item)
  rw [if_pos rfl] at found
  exact List.mem_of_find?_eq_some found

/-- The keys stay as they are, except that a new one comes last. -/
theorem keys_putByKey (item : α) (items : List α) :
    (putByKey keyOf item items).map keyOf =
      if keyOf item ∈ items.map keyOf then items.map keyOf
      else items.map keyOf ++ [keyOf item] := by
  induction items with
  | nil => simp [putByKey]
  | cons first rest ih =>
      by_cases same : keyOf first = keyOf item
      · simp [putByKey, same]
      · have different : keyOf item ≠ keyOf first := Ne.symm same
        simp only [putByKey, same, if_false, List.map_cons, ih, List.mem_cons, different, false_or]
        split <;> simp

/-- An item is put in the first place that has its key. -/
theorem putByKey_eq_set {item : α} {items : List α} {place : Nat}
    (isPlace : items.findIdx? (fun other => keyOf other = keyOf item) = some place) :
    putByKey keyOf item items = items.set place item := by
  induction items generalizing place with
  | nil => cases isPlace
  | cons first rest ih =>
      rw [List.findIdx?_cons] at isPlace
      by_cases same : keyOf first = keyOf item
      · simp only [same, decide_true, if_true, Option.some.injEq] at isPlace
        subst isPlace
        simp [putByKey, same]
      · simp only [same, decide_false, Bool.false_eq_true, if_false,
          Option.map_eq_some_iff] at isPlace
        obtain ⟨later, isLater, rfl⟩ := isPlace
        simp [putByKey, same, ih isLater]

/-- An item of a new key is put behind all others. -/
theorem putByKey_eq_append {item : α} {items : List α}
    (isNew : items.findIdx? (fun other => keyOf other = keyOf item) = none) :
    putByKey keyOf item items = items ++ [item] := by
  induction items with
  | nil => rfl
  | cons first rest ih =>
      rw [List.findIdx?_eq_none_iff] at isNew ih
      obtain ⟨different, laterDifferent⟩ := List.forall_mem_cons.mp isNew
      simp only [decide_eq_false_iff_not] at different
      simp [putByKey, different, ih laterDifferent]

/-- Keys need not be told from the items themselves. -/
theorem map_putByKey {β : Type} {otherKey : β → TrackKey} {image : α → β}
    (sameKey : ∀ item, otherKey (image item) = keyOf item) (item : α) (items : List α) :
    (putByKey keyOf item items).map image = putByKey otherKey (image item) (items.map image) := by
  induction items with
  | nil => rfl
  | cons first rest ih =>
      simp only [putByKey, List.map_cons, sameKey]
      split <;> simp [ih]

end

namespace Track

/-- Whether the traces of a track are taken at the interval of its key, which is positive. The
working trace may still be without samples. -/
structure WellFormed (track : Track) : Prop where
  positive : 0 < track.key.interval
  closed : ∀ trace ∈ track.closed, trace.TakenAt track.key.interval
  working : ∀ trace, track.working = some trace → trace.interval = track.key.interval

theorem wellFormed_ofKey {key : TrackKey} (positive : 0 < key.interval) :
    (ofKey key).WellFormed where
  positive := positive
  closed := by simp [ofKey]
  working := by simp [ofKey]

/-- Closing adds the working trace to the closed ones if it has samples. -/
theorem mem_closed_close {track : Track} {trace : Trace} :
    trace ∈ track.close.closed ↔
      trace ∈ track.closed ∨ track.working = some trace ∧ trace.samples ≠ [] := by
  simp only [close, closedWorking]
  cases track.working with
  | none => simp
  | some working =>
      by_cases isEmpty : working.samples = []
      · simp only [isEmpty, if_true, List.append_nil, Option.some.injEq]
        refine ⟨.inl, fun member => member.resolve_right ?_⟩
        rintro ⟨rfl, nonempty⟩
        exact nonempty isEmpty
      · simp only [isEmpty, if_false, List.mem_append, List.mem_singleton, Option.some.injEq]
        refine or_congr_right ⟨?_, ?_⟩
        · rintro rfl
          exact ⟨rfl, isEmpty⟩
        · exact fun same => same.1.symm

theorem WellFormed.mem_close {track : Track} (wellFormed : track.WellFormed) :
    ∀ trace ∈ track.close.closed, trace.TakenAt track.key.interval := by
  intro trace member
  rcases mem_closed_close.mp member with closed | ⟨isWorking, nonempty⟩
  · exact wellFormed.closed trace closed
  · exact ⟨nonempty, wellFormed.working trace isWorking⟩

theorem WellFormed.close {track : Track} (wellFormed : track.WellFormed) :
    track.close.WellFormed where
  positive := wellFormed.positive
  closed := wellFormed.mem_close
  working := by simp [Track.close]

/-- The trace that a record extends has the interval of the key if the working trace has it. -/
theorem interval_prepare {track : Track}
    (working : ∀ trace, track.working = some trace → trace.interval = track.key.interval)
    (joint : Joint) (record : Record) :
    (track.prepare joint record).2.interval = track.key.interval := by
  simp only [Track.prepare]
  split
  next trace isWorking => exact working trace isWorking
  next trace isWorking => exact working trace isWorking
  next => rfl

/-- Making a track ready for a record keeps it well-formed. -/
theorem WellFormed.prepare {track : Track} (wellFormed : track.WellFormed) (joint : Joint)
    (record : Record) : (track.prepare joint record).1.WellFormed := by
  simp only [Track.prepare]
  split
  next => exact wellFormed
  next => exact wellFormed
  next => exact wellFormed.close

theorem interval_extendedBy (trace : Trace) (record : Record) :
    (trace.extendedBy record).interval = trace.interval := by
  simp only [Trace.extendedBy]
  split <;> rfl

theorem WellFormed.receive {track : Track} (wellFormed : track.WellFormed) (tolerance : Tolerance)
    (record : Record) : (track.receive tolerance record).WellFormed := by
  have prepared := wellFormed.prepare (track.jointOf tolerance record) record
  have sameInterval :=
    interval_prepare wellFormed.working (track.jointOf tolerance record) record
  constructor
  case positive => simpa using wellFormed.positive
  case closed => exact prepared.closed
  case working =>
    rintro trace same
    cases same
    rw [interval_extendedBy, sameInterval, key_receive]

end Track

namespace Demux

/-- Process the bytes of several records, one after the other. -/
def receiveRecords (demux : Demux) (buffers : List (List UInt8)) : Demux :=
  buffers.foldl receiveRecord demux

@[simp] theorem receiveRecords_cons (demux : Demux) (bytes : List UInt8)
    (later : List (List UInt8)) :
    demux.receiveRecords (bytes :: later) = (demux.receiveRecord bytes).receiveRecords later := rfl

/-- What a record does to the tracks: if it is kept, its track receives it. -/
theorem tracks_receiveRecord (demux : Demux) (bytes : List UInt8) :
    (demux.receiveRecord bytes).tracks =
      match Verdict.ofBytes demux.selection bytes with
      | .kept record key =>
          putByKey Track.key ((demux.trackOf key).receive demux.tolerance record) demux.tracks
      | _ => demux.tracks := by
  simp only [receiveRecord]
  cases Verdict.ofBytes demux.selection bytes <;> rfl

@[simp] theorem selection_receiveRecord (demux : Demux) (bytes : List UInt8) :
    (demux.receiveRecord bytes).selection = demux.selection := by
  simp only [receiveRecord]
  split <;> rfl

@[simp] theorem tolerance_receiveRecord (demux : Demux) (bytes : List UInt8) :
    (demux.receiveRecord bytes).tolerance = demux.tolerance := by
  simp only [receiveRecord]
  split <;> rfl

@[simp] theorem failure_receiveRecord (demux : Demux) (bytes : List UInt8) :
    (demux.receiveRecord bytes).failure = demux.failure := by
  simp only [receiveRecord]
  split <;> rfl

theorem tolerance_receiveRecords (demux : Demux) (buffers : List (List UInt8)) :
    (demux.receiveRecords buffers).tolerance = demux.tolerance := by
  induction buffers generalizing demux with
  | nil => rfl
  | cons bytes later ih => rw [receiveRecords_cons, ih, tolerance_receiveRecord]

@[simp] theorem key_trackOf (demux : Demux) (key : TrackKey) : (demux.trackOf key).key = key := by
  simp only [trackOf]
  cases found : demux.tracks.find? (fun track => track.key = key) with
  | none => rfl
  | some track => simpa using List.find?_some found

/-- The track of a key is one of the tracks, or nothing has been gathered for it. -/
theorem trackOf_mem_or (demux : Demux) (key : TrackKey) :
    demux.trackOf key ∈ demux.tracks ∨ demux.trackOf key = Track.ofKey key := by
  simp only [trackOf]
  cases found : demux.tracks.find? (fun track => track.key = key) with
  | none => exact .inr rfl
  | some track => exact .inl (List.mem_of_find?_eq_some found)

/-- A record changes the track of the key under which it is kept, and no other. -/
theorem trackOf_receiveRecord (demux : Demux) (bytes : List UInt8) (key : TrackKey) :
    (demux.receiveRecord bytes).trackOf key =
      match (Verdict.ofBytes demux.selection bytes).keptUnder? key with
      | some record => (demux.trackOf key).receive demux.tolerance record
      | none => demux.trackOf key := by
  have found : (demux.receiveRecord bytes).trackOf key =
      ((demux.receiveRecord bytes).tracks.find? fun track => track.key = key).getD
        (Track.ofKey key) := rfl
  rw [found, tracks_receiveRecord]
  cases Verdict.ofBytes demux.selection bytes with
  | corrupt | heartbeat | filtered | illegalRate => rfl
  | kept record other =>
      dsimp only
      rw [find?_putByKey, Track.key_receive, key_trackOf]
      by_cases same : other = key
      · subst same
        simp [Verdict.keptUnder?]
      · simp [Verdict.keptUnder?, same, trackOf]

/-- The track of a key after a run is what its own records make of the track it had. -/
theorem trackOf_receiveRecords (demux : Demux) (buffers : List (List UInt8)) (key : TrackKey) :
    (demux.receiveRecords buffers).trackOf key =
      (demux.selection.keptUnder key buffers).foldl
        (fun track record => track.receive demux.tolerance record) (demux.trackOf key) := by
  induction buffers generalizing demux with
  | nil => rfl
  | cons bytes later ih =>
      rw [receiveRecords_cons, ih, trackOf_receiveRecord, selection_receiveRecord,
        tolerance_receiveRecord]
      simp only [Selection.keptUnder]
      rw [List.filterMap_cons]
      cases (Verdict.ofBytes demux.selection bytes).keptUnder? key <;> rfl

/-- Whether all tracks are well-formed and have keys of their own. -/
structure WellFormed (demux : Demux) : Prop where
  keys : (demux.tracks.map Track.key).Nodup
  tracks : ∀ track ∈ demux.tracks, track.WellFormed

theorem wellFormed_start (selection : Selection) (tolerance : Tolerance) :
    (start selection tolerance).WellFormed where
  keys := List.nodup_nil
  tracks := by simp [start]

theorem WellFormed.trackOf {demux : Demux} (wellFormed : demux.WellFormed) {key : TrackKey}
    (positive : 0 < key.interval) : (demux.trackOf key).WellFormed := by
  simp only [Demux.trackOf]
  cases found : demux.tracks.find? (fun track => track.key = key) with
  | none => exact Track.wellFormed_ofKey positive
  | some track => exact wellFormed.tracks track (List.mem_of_find?_eq_some found)

theorem WellFormed.receiveRecord {demux : Demux} (wellFormed : demux.WellFormed)
    (bytes : List UInt8) : (demux.receiveRecord bytes).WellFormed := by
  have tracks := demux.tracks_receiveRecord bytes
  cases verdict : Verdict.ofBytes demux.selection bytes with
  | corrupt | heartbeat | filtered | illegalRate =>
      rw [verdict] at tracks
      exact ⟨tracks ▸ wellFormed.keys, tracks ▸ wellFormed.tracks⟩
  | kept record key =>
      rw [verdict] at tracks
      have positive := SampleRate.pos_of_interval? (Verdict.interval?_of_kept verdict)
      constructor
      case keys =>
        rw [tracks, keys_putByKey]
        split
        next => exact wellFormed.keys
        next isNew =>
          exact (List.perm_append_singleton _ _).nodup_iff.mpr
            (List.nodup_cons.mpr ⟨isNew, wellFormed.keys⟩)
      case tracks =>
        rw [tracks]
        intro track member
        rcases mem_putByKey member with rfl | old
        · exact (wellFormed.trackOf positive).receive demux.tolerance record
        · exact wellFormed.tracks track old

theorem WellFormed.receiveRecords {demux : Demux} (wellFormed : demux.WellFormed)
    (buffers : List (List UInt8)) : (demux.receiveRecords buffers).WellFormed := by
  induction buffers generalizing demux with
  | nil => exact wellFormed
  | cons bytes later ih => exact ih (wellFormed.receiveRecord bytes)

theorem continuation_receive (demux : Demux) (block : StreamBlock) :
    (demux.receive block).1 = block.continuation := by
  obtain ⟨stream, skipped, content⟩ := block
  cases content <;> rfl

@[simp] theorem receiveAll_append_singleton (demux : Demux) (blocks : List StreamBlock)
    (block : StreamBlock) :
    demux.receiveAll (blocks ++ [block]) = ((demux.receiveAll blocks).receive block).2 := by
  simp [receiveAll]

theorem selection_receive (demux : Demux) (block : StreamBlock) :
    (demux.receive block).2.selection = demux.selection := by
  simp only [receive]
  cases block.content with
  | record bytes => exact selection_receiveRecord _ bytes
  | ended isLast => rfl
  | failed message => rfl

@[simp] theorem selection_receiveAll (demux : Demux) (blocks : List StreamBlock) :
    (demux.receiveAll blocks).selection = demux.selection := by
  induction blocks generalizing demux with
  | nil => rfl
  | cons block later ih => exact (ih (demux.receive block).2).trans (demux.selection_receive block)

theorem WellFormed.receive {demux : Demux} (wellFormed : demux.WellFormed) (block : StreamBlock) :
    (demux.receive block).2.WellFormed := by
  have counted : (demux.countBytes block).WellFormed := ⟨wellFormed.keys, wellFormed.tracks⟩
  simp only [Demux.receive]
  cases block.content with
  | record bytes => exact counted.receiveRecord bytes
  | ended isLast => exact counted
  | failed message => exact ⟨wellFormed.keys, wellFormed.tracks⟩

theorem WellFormed.receiveAll {demux : Demux} (wellFormed : demux.WellFormed)
    (blocks : List StreamBlock) : (demux.receiveAll blocks).WellFormed := by
  induction blocks generalizing demux with
  | nil => exact wellFormed
  | cons block later ih => exact ih (wellFormed.receive block)

/-! ## Finishing -/

/-- A partial function maps a list item by item. -/
theorem mapM_eq_ok_iff {α β ε : Type} {partialMap : α → Except ε β} {items : List α}
    {images : List β} :
    items.mapM partialMap = .ok images ↔
      List.Forall₂ (fun item image => partialMap item = .ok image) items images := by
  induction items generalizing images with
  | nil => simp [pure, Except.pure, eq_comm]
  | cons item rest ih =>
      rw [List.mapM_cons, List.forall₂_cons_left_iff]
      cases isImage : partialMap item with
      | error error => simp [bind, Except.bind]
      | ok image =>
          simp only [← ih]
          cases rest.mapM partialMap <;>
            simp [bind, Except.bind, pure, Except.pure, eq_comm]

/-- A partial function that is defined on all items maps their list, and what it gives is what it
gives for some item. -/
theorem mapM_of_forall_ok {α β ε : Type} {partialMap : α → Except ε β} {items : List α}
    (defined : ∀ item ∈ items, ∃ image, partialMap item = .ok image) :
    ∃ images, items.mapM partialMap = .ok images ∧
      ∀ image, image ∈ images ↔ ∃ item ∈ items, partialMap item = .ok image := by
  induction items with
  | nil => exact ⟨[], rfl, by simp⟩
  | cons item rest ih =>
      obtain ⟨image, isImage⟩ := defined item List.mem_cons_self
      obtain ⟨images, areImages, mem_images⟩ := ih fun other member =>
        defined other (List.mem_cons_of_mem item member)
      refine ⟨image :: images, ?_, fun other => ?_⟩
      · rw [mapM_eq_ok_iff] at areImages ⊢
        exact .cons isImage areImages
      · rw [List.mem_cons, mem_images]
        simp [isImage, eq_comm]

/-- A track is finished with the segments that its traces form. -/
theorem finishTrack_eq_ok_iff {tolerance : Tolerance} {track : Track} {finished : FinishedTrack} :
    finishTrack tolerance track = .ok finished ↔ ∃ segments corrections,
      segmentTraces tolerance track.close.closed = .ok (segments, corrections) ∧
      finished = ⟨track.key, segments, corrections, track.qualities, track.calibrations⟩ := by
  simp only [finishTrack]
  rcases segmentTraces tolerance track.close.closed with error | ⟨segments, corrections⟩ <;>
    simp [Except.map, eq_comm]

/-- A run is finished with the result that its finished tracks give. -/
theorem finish_eq_ok_iff {demux : Demux} {split : Split} :
    demux.finish = .ok split ↔ ∃ finished,
      demux.tracks.mapM (finishTrack demux.tolerance) = .ok finished ∧
      split = splitOf demux.counters finished := by
  simp only [finish]
  cases demux.tracks.mapM (finishTrack demux.tolerance) <;>
    simp [bind, Except.bind, pure, Except.pure, eq_comm]

/-- A key is listed with some items exactly if a track of that key has them and they are not
none. -/
theorem mem_listed {α : Type} {finished : List FinishedTrack} {items : FinishedTrack → List α}
    {key : TrackKey} {values : List α} :
    (key, values) ∈ listed finished items ↔
      values ≠ [] ∧ ∃ track ∈ finished, track.key = key ∧ items track = values := by
  simp only [listed]
  rw [List.mem_filter, List.mem_map, and_comm]
  refine and_congr (by simp) ?_
  simp [Prod.ext_iff]

/-- If the traces of all tracks can be formed into segments, a run can be finished, and the result
lists under each key the segments of its track. -/
theorem finish_spec {demux : Demux}
    (formed : ∀ track ∈ demux.tracks, ∃ segments corrections,
      segmentTraces demux.tolerance track.close.closed = .ok (segments, corrections)) :
    ∃ split, demux.finish = .ok split ∧ ∀ key segments, (key, segments) ∈ split.tracks ↔
      segments ≠ [] ∧ ∃ track ∈ demux.tracks, track.key = key ∧ ∃ corrections,
        segmentTraces demux.tolerance track.close.closed = .ok (segments, corrections) := by
  have defined : ∀ track ∈ demux.tracks, ∃ finished,
      finishTrack demux.tolerance track = .ok finished := by
    intro track member
    obtain ⟨segments, corrections, isFormed⟩ := formed track member
    exact ⟨_, finishTrack_eq_ok_iff.mpr ⟨segments, corrections, isFormed, rfl⟩⟩
  obtain ⟨finished, areFinished, mem_finished⟩ := mapM_of_forall_ok defined
  refine ⟨_, finish_eq_ok_iff.mpr ⟨finished, areFinished, rfl⟩, ?_⟩
  intro key segments
  simp only [splitOf]
  rw [mem_listed]
  refine and_congr_right fun _ => ⟨?_, ?_⟩
  · rintro ⟨result, member, rfl, rfl⟩
    obtain ⟨track, isTrack, isResult⟩ := (mem_finished result).mp (List.mem_mergeSort.mp member)
    obtain ⟨segments, corrections, isFormed, rfl⟩ := finishTrack_eq_ok_iff.mp isResult
    exact ⟨track, isTrack, rfl, corrections, isFormed⟩
  · rintro ⟨track, isTrack, rfl, corrections, isFormed⟩
    have isResult := finishTrack_eq_ok_iff.mpr ⟨segments, corrections, isFormed, rfl⟩
    exact ⟨_, List.mem_mergeSort.mpr ((mem_finished _).mpr ⟨track, isTrack, isResult⟩), rfl, rfl⟩

/-- A track that is listed is found under its key. -/
theorem WellFormed.trackOf_eq {demux : Demux} (wellFormed : demux.WellFormed) {track : Track}
    (member : track ∈ demux.tracks) : demux.trackOf track.key = track := by
  simp only [Demux.trackOf]
  cases found : demux.tracks.find? (fun other => other.key = track.key) with
  | none => simpa using List.find?_eq_none.mp found track member
  | some other =>
      have sameKey : other.key = track.key := by simpa using List.find?_some found
      exact List.inj_on_of_nodup_map wellFormed.keys (List.mem_of_find?_eq_some found) member
        sameKey

end Demux

end Waveform
