import Waveform.Demux.Track
import Waveform.Storage.StoredTrace

/-!
# Tracks in a pool

A track whose traces keep their samples in blocks of a pool. Unlike a plain track it can be set
back: the trace that a record should start may be refused its rate, and the pool may refuse the
samples. The record is then kept without them, and the run goes on.
-/

namespace Waveform

/-- Why the samples of a record do not reach its track. -/
inductive Setback where
  /-- No trace could be started for them. -/
  | notStarted (error : TraceError)
  /-- They could not be put at the end of the trace. -/
  | notExtended (error : StorageError)
deriving DecidableEq

namespace StoredTrace

/-- A trace without samples that starts at a time and has a legal rate. -/
def ofRate (pool : Nat) (start : Int) (rate : Float) : Except TraceError StoredTrace :=
  ((empty pool).setStart start).setRate rate

/-- The trace with the samples of a record at its end, if they can be decoded. -/
def extendedBy (trace : StoredTrace) (record : Record) : Stored (StoredTrace × Option Setback) :=
  match record.samples with
  | .error _ => return (trace, none)
  | .ok samples => do
      match ← (trace.extend samples 0 samples.length).attempt with
      | .ok longer => return (longer, none)
      | .error error => return (trace, some (.notExtended error))

/-- The trace with its samples read from their blocks. -/
def load (trace : StoredTrace) : Stored Trace := do
  return ⟨trace.start, trace.rate, trace.interval, ← trace.samples⟩

end StoredTrace

/-- What has been gathered for one key, in a pool. -/
structure StoredTrack where
  key : TrackKey
  /-- The trace that the next record may extend. -/
  working : Option StoredTrace
  /-- The traces that are closed, in the order in which they were. -/
  closed : List StoredTrace
  /-- The clock qualities that records gave, in order. -/
  qualities : List Nat
  /-- The calibrations that records gave, in order. -/
  calibrations : List Calibration
deriving DecidableEq

namespace StoredTrack

/-- A track for which nothing has been gathered. -/
def ofKey (key : TrackKey) : StoredTrack := ⟨key, none, [], [], []⟩

/-- The track with its working trace closed; a trace without samples is dropped. -/
def close (track : StoredTrack) : Stored StoredTrack :=
  match track.working with
  | none => return track
  | some trace =>
      if trace.length = 0 then do
        discard trace.clear
        return { track with working := none }
      else return { track with working := none, closed := track.closed ++ [trace] }

/-- How a record stands to the track. -/
def jointOf (track : StoredTrack) (tolerance : Tolerance) (record : Record) : Joint :=
  match track.working with
  | none => .opening
  | some trace =>
      let interval := track.key.interval
      let slack := tolerance.slack interval
      if trace.length = 0 then .restart
      else if interval + slack < record.start - trace.stop then .gap
      else if record.start - trace.stop < interval - slack then .overlap
      else .continues

/-- The track made ready for a record. -/
def prepare (track : StoredTrack) (joint : Joint) (record : Record) : Stored StoredTrack :=
  match joint with
  | .opening | .continues => return track
  | .restart =>
      return { track with working := track.working.map fun trace => trace.setStart record.start }
  | .gap | .overlap => track.close

/-- The working trace, or else a new one that a record starts in a pool. -/
def workingFor (track : StoredTrack) (pool : Nat) (record : Record) :
    Except TraceError StoredTrace :=
  match track.working with
  | some trace => .ok trace
  | none => StoredTrace.ofRate pool record.start record.header.sampleRate

/-- What comes of a record that a track receives. -/
structure Receipt where
  track : StoredTrack
  joint : Joint
  /-- Whether the samples were asked for and could not be decoded. -/
  undecoded : Bool
  setback : Option Setback
deriving DecidableEq

/-- The track with a record's samples, if they can be decoded, its clock quality and its
calibrations. A record for which no trace can be started leaves none of these. -/
def receive (track : StoredTrack) (pool : Nat) (tolerance : Tolerance) (record : Record) :
    Stored Receipt := do
  let joint := track.jointOf tolerance record
  let ready ← track.prepare joint record
  match ready.workingFor pool record with
  | .error error => return ⟨ready, joint, false, some (.notStarted error)⟩
  | .ok trace => do
      let (longer, setback) ← trace.extendedBy record
      let extended := { ready with
        working := some longer
        qualities := ready.qualities ++ record.clockQuality?.toList
        calibrations := ready.calibrations ++ record.calibrations }
      return ⟨extended, joint, !record.samples.isOk, setback⟩

end StoredTrack

end Waveform
