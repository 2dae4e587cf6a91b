import Waveform.Channel.TrackKey
import Waveform.Record.Record
import Waveform.Trace.Trace

/-!
# Tracks

A track gathers the samples of one key. Records that follow each other within the tolerance extend
one working trace; a record after a gap, or one that overlaps, closes it and starts another.
-/

namespace Waveform

/-- What has been gathered for one key. -/
structure Track where
  key : TrackKey
  /-- The trace that the next record may extend. -/
  working : Option Trace
  /-- The traces that are closed, in the order in which they were. -/
  closed : List Trace
  /-- The clock qualities that records gave, in order. -/
  qualities : List Nat
  /-- The calibrations that records gave, in order. -/
  calibrations : List Calibration
deriving DecidableEq

/-- How a record stands to the working trace of its track. -/
inductive Joint where
  /-- There is no working trace. -/
  | opening
  /-- The working trace has no samples yet. -/
  | restart
  | continues
  | gap
  | overlap
deriving DecidableEq

namespace Joint

/-- How a start stands to a working trace: it is expected one interval after the last sample, give
or take the slack. -/
def ofStart (tolerance : Tolerance) (interval : Int) (working : Option Trace) (start : Int) :
    Joint :=
  match working with
  | none => .opening
  | some trace =>
      let slack := tolerance.slack interval
      if trace.samples = [] then .restart
      else if interval + slack < start - trace.stop then .gap
      else if start - trace.stop < interval - slack then .overlap
      else .continues

end Joint

/-- A trace with the samples of a record at its end, if they can be decoded. -/
def Trace.extendedBy (trace : Trace) (record : Record) : Trace :=
  match record.samples with
  | .ok samples => trace.append samples
  | .error _ => trace

namespace Track

/-- A track for which nothing has been gathered. -/
def ofKey (key : TrackKey) : Track := ⟨key, none, [], [], []⟩

/-- The working trace as a list of closed ones; a trace without samples is dropped. -/
def closedWorking (track : Track) : List Trace :=
  match track.working with
  | none => []
  | some trace => if trace.samples = [] then [] else [trace]

/-- The track with its working trace closed. -/
def close (track : Track) : Track :=
  { track with working := none, closed := track.closed ++ track.closedWorking }

/-- A trace of the track's interval that a record starts. -/
def newTrace (track : Track) (record : Record) : Trace where
  start := record.start
  rate := record.header.sampleRate
  interval := track.key.interval
  samples := []

/-- The track made ready for the samples of a record, and the trace that they extend. -/
def prepare (track : Track) (joint : Joint) (record : Record) : Track × Trace :=
  match joint, track.working with
  | .restart, some trace => (track, trace.setStart record.start)
  | .continues, some trace => (track, trace)
  | _, _ => (track.close, track.newTrace record)

/-- How a record stands to the track. -/
def jointOf (track : Track) (tolerance : Tolerance) (record : Record) : Joint :=
  Joint.ofStart tolerance track.key.interval track.working record.start

/-- The track with a record's samples, if they can be decoded, its clock quality and its
calibrations. -/
def receive (track : Track) (tolerance : Tolerance) (record : Record) : Track :=
  let prepared := track.prepare (track.jointOf tolerance record) record
  { prepared.1 with
    working := some (prepared.2.extendedBy record)
    qualities := track.qualities ++ record.clockQuality?.toList
    calibrations := track.calibrations ++ record.calibrations }

@[simp] theorem key_prepare (track : Track) (joint : Joint) (record : Record) :
    (track.prepare joint record).1.key = track.key := by
  unfold prepare
  split <;> rfl

@[simp] theorem key_receive (track : Track) (tolerance : Tolerance) (record : Record) :
    (track.receive tolerance record).key = track.key :=
  track.key_prepare (track.jointOf tolerance record) record

end Track

end Waveform
