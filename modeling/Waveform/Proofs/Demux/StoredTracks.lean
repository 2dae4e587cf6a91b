import Waveform.Demux.StoredTrack
import Waveform.Proofs.Storage.Operations

/-!
# Tracks in a pool simulate plain tracks

A track in a pool receives a record of a legal rate as the plain track does. It is never set back:
the rate is not refused, and the pool, whatever other traces it holds, takes the samples.
-/

namespace Waveform

variable {blockSizes : List Nat} {pools : List Pool} {rest : List (StoredTrace × Trace)}

theorem Trace.extend_all (trace : Trace) (samples : List Int32) :
    trace.extend samples 0 samples.length = .ok (trace.append samples) := by
  simp [Trace.extend, Trace.part?, Except.map]

namespace StoredTrace

variable {stored : StoredTrace} {plain : Trace}

/-- A trace of a legal rate can be started. -/
theorem ofRate_of_legal {rate : Float} {interval : Int}
    (legal : SampleRate.interval? rate = some interval) (pool : Nat) (start : Int) :
    ofRate pool start rate = .ok ⟨pool, [], 0, start, rate, interval⟩ := by
  simp [ofRate, setRate, legal, empty, setStart]

theorem Describes.length_eq_zero_iff (describes : stored.Describes plain) :
    stored.length = 0 ↔ plain.samples = [] := by
  rw [describes.length, List.length_eq_zero_iff]

/-- The pool takes the samples of any record. -/
theorem extendedBy_spec (holds : Holds blockSizes pools ((stored, plain) :: rest))
    (record : Record) :
    ∃ longer changed, stored.extendedBy record pools = (.ok (longer, none), changed) ∧
      Holds blockSizes changed ((longer, plain.extendedBy record) :: rest) := by
  simp only [extendedBy, Trace.extendedBy]
  cases record.samples with
  | error error => exact ⟨stored, pools, rfl, holds⟩
  | ok samples =>
      have simulates := extend_simulates holds samples 0 samples.length
      rw [Trace.extend_all] at simulates
      obtain ⟨longer, changed, isLonger, longerHolds⟩ := simulates
      refine ⟨longer, changed, ?_, longerHolds⟩
      dsimp only
      rw [Process.bind_of_ok (Process.attempt_of_ok isLonger)]
      rfl

/-- Dropping a trace leaves the others as they are. -/
theorem discard_spec (holds : Holds blockSizes pools ((stored, plain) :: rest)) :
    ∃ changed, (discard stored.clear : Stored Unit) pools = (.ok (), changed) ∧
      Holds blockSizes changed rest := by
  obtain ⟨cleared, changed, isCleared, clearedHolds⟩ := clear_simulates holds
  exact ⟨changed, Process.map_of_ok isCleared (Function.const StoredTrace ()),
    clearedHolds.dropEmpty rfl⟩

end StoredTrace

/-- A track in a pool beside the plain track that it stands for: each of its traces is given
together with the plain one. -/
structure PairedTrack where
  key : TrackKey
  working : Option (StoredTrace × Trace)
  closed : List (StoredTrace × Trace)
  qualities : List Nat
  calibrations : List Calibration

namespace PairedTrack

def stored (track : PairedTrack) : StoredTrack :=
  ⟨track.key, track.working.map Prod.fst, track.closed.map Prod.fst, track.qualities,
    track.calibrations⟩

def plain (track : PairedTrack) : Track :=
  ⟨track.key, track.working.map Prod.snd, track.closed.map Prod.snd, track.qualities,
    track.calibrations⟩

/-- All traces of the track, the working one first. -/
def entries (track : PairedTrack) : List (StoredTrace × Trace) :=
  track.working.toList ++ track.closed

variable {track : PairedTrack}

/-- A track is closed as the plain one is, and has no working trace then. -/
theorem close_spec (holds : Holds blockSizes pools (track.entries ++ rest)) :
    ∃ (closed : PairedTrack) (changed : List Pool),
      track.stored.close pools = (.ok closed.stored, changed) ∧
      track.plain.close = closed.plain ∧
      (closed.key = track.key ∧ closed.qualities = track.qualities ∧
        closed.calibrations = track.calibrations) ∧
      closed.working = none ∧ Holds blockSizes changed (closed.entries ++ rest) := by
  obtain ⟨key, working, closed, qualities, calibrations⟩ := track
  cases working with
  | none =>
      refine ⟨⟨key, none, closed, qualities, calibrations⟩, pools, rfl, ?_,
        ⟨rfl, rfl, rfl⟩, rfl, holds⟩
      simp [plain, Track.close, Track.closedWorking]
  | some entry =>
      obtain ⟨stored, plainWorking⟩ := entry
      have describes : stored.Describes plainWorking := holds.describes_head
      have sameEmpty := describes.length_eq_zero_iff
      simp only [PairedTrack.stored, StoredTrack.close, Option.map_some]
      by_cases isEmpty : plainWorking.samples = []
      · obtain ⟨changed, isDropped, droppedHolds⟩ := StoredTrace.discard_spec holds
        refine ⟨⟨key, none, closed, qualities, calibrations⟩, changed, ?_, ?_,
          ⟨rfl, rfl, rfl⟩, rfl, droppedHolds⟩
        · rw [if_pos (sameEmpty.mpr isEmpty), Process.bind_of_ok isDropped]
          rfl
        · simp [plain, Track.close, Track.closedWorking, isEmpty]
      · refine ⟨⟨key, none, closed ++ [(stored, plainWorking)], qualities, calibrations⟩, pools, ?_,
          ?_, ⟨rfl, rfl, rfl⟩, rfl, ?_⟩
        · rw [if_neg (mt sameEmpty.mp isEmpty)]
          simp [Process.pure_apply]
        · simp [plain, Track.close, Track.closedWorking, isEmpty]
        · apply holds.perm
          exact (List.perm_append_singleton _ closed).symm.append_right rest

theorem jointOf_eq (holds : Holds blockSizes pools (track.entries ++ rest)) (tolerance : Tolerance)
    (record : Record) :
    track.stored.jointOf tolerance record = track.plain.jointOf tolerance record := by
  obtain ⟨key, working, closed, qualities, calibrations⟩ := track
  cases working with
  | none => rfl
  | some entry =>
      have describes : entry.1.Describes entry.2 := holds.describes_head
      simp only [stored, plain, StoredTrack.jointOf, Track.jointOf, Joint.ofStart, Option.map_some]
      rw [describes.stop_eq]
      exact if_congr describes.length_eq_zero_iff rfl rfl

/-- A record opens a track only if there is no working trace. -/
theorem working_eq_none_of_opening {tolerance : Tolerance} {record : Record}
    (isOpening : track.plain.jointOf tolerance record = .opening) : track.working = none := by
  cases isWorking : track.working with
  | none => rfl
  | some entry =>
      simp only [plain, Track.jointOf, Joint.ofStart, isWorking, Option.map_some] at isOpening
      repeat' split at isOpening
      all_goals cases isOpening

/-- Whether a track is ready for a record as the plain one is: it has, or can start, the trace that
the record extends. -/
structure Readied (blockSizes : List Nat) (rest : List (StoredTrace × Trace)) (track : PairedTrack)
    (pool : Nat) (record : Record) (prepared : Track × Trace) (ready : PairedTrack)
    (pools : List Pool) : Prop where
  key : ready.key = track.key
  qualities : ready.qualities = track.qualities
  calibrations : ready.calibrations = track.calibrations
  closed : prepared.1.closed = ready.closed.map Prod.snd
  opens : ∃ opened, ready.stored.workingFor pool record = .ok opened ∧
    Holds blockSizes pools ((opened, prepared.2) :: (ready.closed ++ rest))

section

variable {pool : Nat} {record : Record}

/-- A record can start a trace in any pool if its rate is legal. -/
theorem workingFor_of_legal (holds : Holds blockSizes pools (track.closed ++ rest))
    (noWorking : track.working = none) (inside : pool < blockSizes.length)
    (legal : SampleRate.interval? record.header.sampleRate = some track.key.interval) :
    ∃ opened, track.stored.workingFor pool record = .ok opened ∧
      Holds blockSizes pools ((opened, track.plain.newTrace record) :: (track.closed ++ rest)) := by
  refine ⟨⟨pool, [], 0, record.start, record.header.sampleRate, track.key.interval⟩, ?_, ?_⟩
  · simp only [StoredTrack.workingFor, stored]
    rw [noWorking]
    exact StoredTrace.ofRate_of_legal legal pool record.start
  · have sameLength : pools.length = blockSizes.length := by
      rw [← holds.sizes, List.length_map]
    exact holds.addEmpty (sameLength ▸ inside) rfl rfl
      ⟨rfl, rfl, rfl, rfl, (SampleRate.pos_of_interval? legal).le⟩

/-- A track that has no working trace is ready for a record that starts one. -/
theorem readied_of_none (holds : Holds blockSizes pools (track.entries ++ rest))
    (noWorking : track.working = none) (inside : pool < blockSizes.length)
    (legal : SampleRate.interval? record.header.sampleRate = some track.key.interval)
    (joint : Joint) :
    Readied blockSizes rest track pool record (track.plain.prepare joint record) track pools := by
  have noPlainWorking : track.plain.working = none := by simp [plain, noWorking]
  have prepared : track.plain.prepare joint record =
      (track.plain.close, track.plain.newTrace record) := by
    simp only [Track.prepare]
    rw [noPlainWorking]
    cases joint <;> rfl
  rw [entries, noWorking] at holds
  rw [prepared]
  refine ⟨rfl, rfl, rfl, ?_, workingFor_of_legal holds noWorking inside legal⟩
  simp [Track.close, Track.closedWorking, noWorking, plain]

/-- A track that is closed is ready for a record that starts a trace. -/
theorem close_readied (holds : Holds blockSizes pools (track.entries ++ rest))
    (inside : pool < blockSizes.length)
    (legal : SampleRate.interval? record.header.sampleRate = some track.key.interval) :
    ∃ (ready : PairedTrack) (changed : List Pool),
      track.stored.close pools = (.ok ready.stored, changed) ∧
      Readied blockSizes rest track pool record
        (track.plain.close, track.plain.newTrace record) ready changed := by
  obtain ⟨ready, changed, isClosed, isPlain, same, noWorking, readyHolds⟩ := close_spec holds
  rw [entries, noWorking] at readyHolds
  have opens := workingFor_of_legal readyHolds noWorking inside (same.1 ▸ legal)
  refine ⟨ready, changed, isClosed, same.1, same.2.1, same.2.2, ?_, ?_⟩
  · rw [isPlain]
    rfl
  · have sameTrace : ready.plain.newTrace record = track.plain.newTrace record := by
      simp [Track.newTrace, plain, same.1]
    rw [sameTrace] at opens
    exact opens

/-- A track is made ready for a record as the plain one is. -/
theorem prepare_spec (holds : Holds blockSizes pools (track.entries ++ rest))
    (inside : pool < blockSizes.length)
    (legal : SampleRate.interval? record.header.sampleRate = some track.key.interval)
    {joint : Joint} (opening : joint = .opening → track.working = none) :
    ∃ (ready : PairedTrack) (changed : List Pool),
      track.stored.prepare joint record pools = (.ok ready.stored, changed) ∧
      Readied blockSizes rest track pool record (track.plain.prepare joint record) ready
        changed := by
  cases joint with
  | gap => exact close_readied holds inside legal
  | overlap => exact close_readied holds inside legal
  | opening =>
      exact ⟨track, pools, rfl, readied_of_none holds (opening rfl) inside legal .opening⟩
  | continues =>
      refine ⟨track, pools, rfl, ?_⟩
      cases isWorking : track.working with
      | none => exact readied_of_none holds isWorking inside legal .continues
      | some entry =>
          have prepared : track.plain.prepare .continues record = (track.plain, entry.2) := by
            simp [Track.prepare, plain, isWorking]
          rw [entries, isWorking] at holds
          rw [prepared]
          refine ⟨rfl, rfl, rfl, rfl, entry.1, ?_, holds⟩
          simp [StoredTrack.workingFor, stored, isWorking]
  | restart =>
      cases isWorking : track.working with
      | none =>
          refine ⟨track, pools, ?_, readied_of_none holds isWorking inside legal .restart⟩
          simp [StoredTrack.prepare, stored, isWorking, Process.pure_apply]
      | some entry =>
          obtain ⟨storedWorking, plainWorking⟩ := entry
          let moved := (storedWorking.setStart record.start, plainWorking.setStart record.start)
          have prepared : track.plain.prepare .restart record = (track.plain, moved.2) := by
            simp [Track.prepare, plain, isWorking, moved]
          rw [entries, isWorking] at holds
          rw [prepared]
          refine ⟨{ track with working := some moved }, pools, ?_, rfl, rfl, rfl, rfl, moved.1, ?_,
            StoredTrace.setStart_holds holds record.start⟩
          · simp [StoredTrack.prepare, stored, isWorking, moved, Process.pure_apply]
          · simp [StoredTrack.workingFor, stored]

/-- A track receives a record of a legal rate as the plain one does, without being set back. -/
theorem receive_spec (holds : Holds blockSizes pools (track.entries ++ rest))
    (inside : pool < blockSizes.length) (tolerance : Tolerance)
    (legal : SampleRate.interval? record.header.sampleRate = some track.key.interval) :
    ∃ (next : PairedTrack) (changed : List Pool),
      track.stored.receive pool tolerance record pools =
        (.ok ⟨next.stored, track.plain.jointOf tolerance record, !record.samples.isOk, none⟩,
          changed) ∧
      track.plain.receive tolerance record = next.plain ∧
      next.key = track.key ∧ Holds blockSizes changed (next.entries ++ rest) := by
  obtain ⟨ready, between, isReady, readied⟩ := prepare_spec holds inside legal
    fun isOpening => working_eq_none_of_opening isOpening
  obtain ⟨opened, isOpened, openedHolds⟩ := readied.opens
  obtain ⟨longer, changed, isLonger, longerHolds⟩ :=
    StoredTrace.extendedBy_spec openedHolds record
  let prepared := track.plain.prepare (track.plain.jointOf tolerance record) record
  refine ⟨⟨track.key, some (longer, prepared.2.extendedBy record), ready.closed,
    track.qualities ++ record.clockQuality?.toList, track.calibrations ++ record.calibrations⟩,
    changed, ?_, ?_, rfl, longerHolds⟩
  · simp only [StoredTrack.receive]
    rw [jointOf_eq holds tolerance record, Process.bind_of_ok isReady, isOpened]
    dsimp only
    rw [Process.bind_of_ok isLonger]
    simp [stored, readied.key, readied.qualities, readied.calibrations, Process.pure_apply]
  · have sameClosed := readied.closed
    simp only [Track.receive, plain] at sameClosed ⊢
    simp [sameClosed, prepared, plain]

end

end PairedTrack

end Waveform
