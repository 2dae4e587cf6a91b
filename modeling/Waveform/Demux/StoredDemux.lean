import Waveform.Demux.Demux
import Waveform.Demux.StoredSegmentation
import Waveform.Demux.StoredTrack

/-!
# Demultiplexing into a pool

The demultiplexer whose tracks keep their samples in one pool, which other traces may use as well.
It judges, counts and routes records as the one without a pool does, and finds the track of a key by
an index of their places. The result of a run lists the samples of the segments as they are read
from the pool at its end.
-/

namespace Waveform

/-- The state of demultiplexing into a pool. -/
structure StoredDemux where
  selection : Selection
  tolerance : Tolerance
  /-- The number of the pool. -/
  pool : Nat
  /-- The tracks in the order in which their first records came. -/
  tracks : List StoredTrack
  /-- The keys that have a track, each with the place of this. -/
  index : List (TrackKey × Nat)
  counters : Counters
  /-- The first failure of a stream. -/
  failure : Option StreamFailure

namespace StoredDemux

/-- Nothing processed yet. -/
def start (selection : Selection) (tolerance : Tolerance) (pool : Nat) : StoredDemux :=
  ⟨selection, tolerance, pool, [], [], Counters.zero, none⟩

/-- The place of the track of a key. -/
def placeOf? (demux : StoredDemux) (key : TrackKey) : Option Nat :=
  (demux.index.find? fun entry => entry.1 = key).map Prod.snd

/-- The track of a key, a new one if there is none yet. -/
def trackOf (demux : StoredDemux) (key : TrackKey) : StoredTrack :=
  ((demux.placeOf? key).bind fun place => demux.tracks[place]?).getD (StoredTrack.ofKey key)

/-- The place of the track of a key. A new track is put behind all others. -/
def reserve (demux : StoredDemux) (key : TrackKey) : Nat × StoredDemux :=
  match demux.placeOf? key with
  | some place => (place, demux)
  | none =>
      let place := demux.tracks.length
      (place, { demux with
        tracks := demux.tracks ++ [StoredTrack.ofKey key]
        index := demux.index ++ [(key, place)] })

/-- Route a record that is kept to its track. -/
def route (demux : StoredDemux) (record : Record) (key : TrackKey) :
    Stored (StoredDemux × Option Setback) := do
  let (place, reserved) := demux.reserve key
  match reserved.tracks[place]? with
  | none => throw (.noTrack place)
  | some track => do
      let receipt ← track.receive demux.pool demux.tolerance record
      let routed := { reserved with
        tracks := reserved.tracks.set place receipt.track
        counters := demux.counters.addKept key.text (receipt.joint = .gap)
          (receipt.joint = .overlap) receipt.undecoded }
      return (routed, receipt.setback)

/-- Process the bytes of a record. -/
def receiveRecord (demux : StoredDemux) (bytes : List UInt8) :
    Stored (StoredDemux × Option Setback) :=
  match Verdict.ofBytes demux.selection bytes with
  | .kept record key => demux.route record key
  | discarded => return ({ demux with counters := demux.counters.addDiscarded discarded }, none)

/-- Count the bytes of a block. -/
def countBytes (demux : StoredDemux) (block : StreamBlock) : StoredDemux :=
  { demux with counters := demux.counters.addBytes block.bytes.length block.skipped }

/-- Note the failure of a stream, unless another one failed before. -/
def fail (demux : StoredDemux) (stream : Nat) (reason : String) : StoredDemux :=
  { demux with failure := demux.failure.or (some ⟨stream, demux.counters.bytes, reason⟩) }

/-- What processing one block comes to. -/
structure Processed where
  continuation : Continuation
  setback : Option Setback
deriving DecidableEq

/-- Process one block. -/
def receive (demux : StoredDemux) (block : StreamBlock) : Stored (Processed × StoredDemux) :=
  let counted := demux.countBytes block
  match block.content with
  | .record bytes => do
      let (next, setback) ← counted.receiveRecord bytes
      return (⟨.goOn, setback⟩, next)
  | .ended isLast => return (⟨if isLast then .stop else .goOn, none⟩, counted)
  | .failed message => return (⟨.goOn, none⟩, counted.fail block.stream message)

/-- Process several blocks, one after the other, also after the one that ends the run. -/
def receiveAll (demux : StoredDemux) :
    List StreamBlock → Stored (List Processed × StoredDemux)
  | [] => return ([], demux)
  | block :: later => do
      let (processed, next) ← demux.receive block
      let (others, final) ← next.receiveAll later
      return (processed :: others, final)

/-- Process the bytes of several records, one after the other. -/
def receiveRecords (demux : StoredDemux) (buffers : List (List UInt8)) : Stored StoredDemux :=
  buffers.foldlM (fun demux bytes => return (← demux.receiveRecord bytes).1) demux

/-- Form the traces of a track that is closed into segments and read these. -/
def finishTrack (tolerance : Tolerance) (track : StoredTrack) :
    Stored (Demux.FinishedTrack × List StoredTrace) := do
  let (segments, corrections) ← segmentStoredTraces tolerance track.closed
  let loaded ← segments.mapM StoredTrace.load
  return (⟨track.key, loaded, corrections, track.qualities, track.calibrations⟩, segments)

/-- Close all tracks and form their traces into segments. These stay in the pool. -/
def finish (demux : StoredDemux) : Stored (Split × List StoredTrace) := do
  let closed ← demux.tracks.mapM StoredTrack.close
  let finished ← closed.mapM (finishTrack demux.tolerance)
  return (Demux.splitOf demux.counters (finished.map Prod.fst), finished.flatMap Prod.snd)

/-- Process the bytes of several records and finish. -/
def splitRecords (demux : StoredDemux) (buffers : List (List UInt8)) :
    Stored (Split × List StoredTrace) := do
  (← demux.receiveRecords buffers).finish

end StoredDemux

end Waveform
