import Waveform.Demux.Counters
import Waveform.Demux.Segmentation
import Waveform.Demux.Track
import Waveform.Demux.Verdict
import Waveform.Framing.StreamBlock

/-!
# Demultiplexing

The records of all streams are judged, counted and routed to the tracks of their keys. When all
blocks have been processed, the traces of every track are formed into segments.
-/

namespace Waveform

/-- The failure of a stream. -/
structure StreamFailure where
  stream : Nat
  /-- How many bytes had been processed by then. -/
  bytes : Nat
  reason : String
deriving DecidableEq

/-- The complaint about a stream. -/
def StreamFailure.message (failure : StreamFailure) : String :=
  s!"stream {failure.stream} failed after {failure.bytes} bytes: " ++ failure.reason

/-- Whether there is more to process. -/
inductive Continuation where
  | goOn
  | stop
deriving DecidableEq

/-- Whether there is more to process after a block. -/
def StreamBlock.continuation (block : StreamBlock) : Continuation :=
  if block.isLast then .stop else .goOn

/-- The result of a splitting run. -/
structure Split where
  /-- The segments of every key that has any, in the order of keys. -/
  tracks : List (TrackKey × List Trace)
  /-- The clock qualities of every key that has any, in the order of keys. -/
  qualities : List (TrackKey × List Nat)
  /-- The calibrations of every key that has any, in the order of keys. -/
  calibrations : List (TrackKey × List Calibration)
  streams : List StreamSummary
  counters : Counters
deriving DecidableEq

namespace Split

/-- The digest of a stream, if one was taken. -/
def digestOf (split : Split) (stream : Nat) : Option String :=
  (split.streams.find? fun outcome => outcome.stream = stream).bind StreamSummary.digest

end Split

/-- The state of demultiplexing. -/
structure Demux where
  selection : Selection
  tolerance : Tolerance
  /-- The tracks in the order in which their first records came. -/
  tracks : List Track
  counters : Counters
  /-- The first failure of a stream. -/
  failure : Option StreamFailure

/-- Count a record that is discarded, in all and under what its verdict says. -/
def Counters.addDiscarded (counters : Counters) (verdict : Verdict) : Counters :=
  let counted := { counters with discarded := counters.discarded + 1 }
  match verdict with
  | .corrupt _ => { counted with corrupt := counters.corrupt + 1 }
  | .heartbeat => { counted with heartbeats := counters.heartbeats + 1 }
  | .filtered _ => { counted with filtered := counters.filtered + 1 }
  | .illegalRate _ => { counted with illegalRates := counters.illegalRates + 1 }
  | .kept _ _ => counters

namespace Demux

/-- Nothing processed yet. -/
def start (selection : Selection) (tolerance : Tolerance) : Demux :=
  ⟨selection, tolerance, [], Counters.zero, none⟩

/-- The track of a key, a new one if there is none yet. -/
def trackOf (demux : Demux) (key : TrackKey) : Track :=
  (demux.tracks.find? fun track => track.key = key).getD (Track.ofKey key)

/-- Route a record that is kept to its track. -/
def route (demux : Demux) (record : Record) (key : TrackKey) : Demux :=
  let track := demux.trackOf key
  let joint := track.jointOf demux.tolerance record
  { demux with
    tracks := putByKey Track.key (track.receive demux.tolerance record) demux.tracks
    counters := demux.counters.addKept key.text (joint = .gap) (joint = .overlap)
      (!record.samples.isOk) }

/-- Process the bytes of a record. -/
def receiveRecord (demux : Demux) (bytes : List UInt8) : Demux :=
  match Verdict.ofBytes demux.selection bytes with
  | .kept record key => demux.route record key
  | discarded => { demux with counters := demux.counters.addDiscarded discarded }

/-- Count the bytes of a block. -/
def countBytes (demux : Demux) (block : StreamBlock) : Demux :=
  { demux with counters := demux.counters.addBytes block.bytes.length block.skipped }

/-- Note the failure of a stream, unless another one failed before. -/
def fail (demux : Demux) (stream : Nat) (reason : String) : Demux :=
  { demux with failure := demux.failure.or (some ⟨stream, demux.counters.bytes, reason⟩) }

/-- Process one block. -/
def receive (demux : Demux) (block : StreamBlock) : Continuation × Demux :=
  let counted := demux.countBytes block
  match block.content with
  | .record bytes => (.goOn, counted.receiveRecord bytes)
  | .ended isLast => (if isLast then .stop else .goOn, counted)
  | .failed message => (.goOn, counted.fail block.stream message)

/-- Process several blocks, one after the other, also after the one that ends the run. -/
def receiveAll (demux : Demux) (blocks : List StreamBlock) : Demux :=
  blocks.foldl (fun demux block => (demux.receive block).2) demux

/-- What is left of a track at the end of a run. -/
structure FinishedTrack where
  key : TrackKey
  segments : List Trace
  corrections : Nat
  qualities : List Nat
  calibrations : List Calibration

/-- Close a track and form its traces into segments. -/
def finishTrack (tolerance : Tolerance) (track : Track) : Except TraceError FinishedTrack :=
  (segmentTraces tolerance track.close.closed).map fun (segments, corrections) =>
    ⟨track.key, segments, corrections, track.qualities, track.calibrations⟩

/-- The non-empty lists that finished tracks give, under their keys. -/
def listed {α : Type} (finished : List FinishedTrack) (items : FinishedTrack → List α) :
    List (TrackKey × List α) :=
  (finished.map fun track => (track.key, items track)).filter fun entry => !entry.2.isEmpty

/-- The result that finished tracks give, with the counters of their run. -/
def splitOf (counters : Counters) (finished : List FinishedTrack) : Split :=
  let sorted := finished.mergeSort fun first second => first.key.le second.key
  let corrections := totalOf FinishedTrack.corrections finished
  { tracks := listed sorted FinishedTrack.segments
    qualities := listed sorted FinishedTrack.qualities
    calibrations := listed sorted FinishedTrack.calibrations
    streams := []
    counters := { counters with timingCorrections := counters.timingCorrections + corrections } }

/-- Close all tracks and form their traces into segments. -/
def finish (demux : Demux) : Except TraceError Split := do
  let finished ← demux.tracks.mapM (finishTrack demux.tolerance)
  return splitOf demux.counters finished

end Demux

end Waveform
