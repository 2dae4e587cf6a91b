import Waveform.Demux.Run
import Waveform.Files.Folder
import Waveform.Framing.Framer
import Waveform.Monitor.RecentQueue
import Waveform.Storage.Pool
import Waveform.Total

/-!
# Sessions

A session splits streams or files with one configuration. The streams are read one after the other,
each up to its end or its failure; after them comes the block that ends the run.
-/

namespace Waveform

/-- The configuration of a session. -/
structure SessionConfig where
  selection : Selection
  tolerance : Tolerance
  /-- How many snapshots are kept for those who look. -/
  progressCapacity : Nat
  /-- Whether a digest is taken of every stream. -/
  wantsDigest : Bool
  /-- How many streams may be read at a time. -/
  readers : Nat
  /-- How many samples a block has. -/
  blockSize : Nat

namespace SessionConfig

/-- The configuration that keeps every channel. -/
def standard : SessionConfig :=
  ⟨Selection.everything, Tolerance.standard, 1, true, 1, Pool.standardBlockSize⟩

/-- The block size that is used: at least one sample. -/
def usedBlockSize (config : SessionConfig) : Nat := max config.blockSize 1

end SessionConfig

/-- What a session tells after a run. -/
structure SessionOutcome where
  /-- The number of bytes of all inputs, if it was known beforehand. -/
  total : Option Nat
  cancelled : Bool
  /-- The last snapshot that was kept. -/
  latest : Option SplitProgress
  result : Except SplitError (Option Split)

namespace SessionOutcome

/-- The share of the work that the last snapshot tells, if the total is known. -/
def percent (outcome : SessionOutcome) : Option Nat :=
  match outcome.latest, outcome.total with
  | some progress, some total => some (progress.percent total)
  | _, _ => none

end SessionOutcome

/-- What is opened at some paths, unless one of them leads nowhere. -/
def Places.openAll (places : Places) (paths : List String) : Except OpenFault (List Place) :=
  paths.mapM places

/-- The source that a place is read from. A folder can be opened, but not read. -/
def Place.source : Place → Source
  | .file bytes => Source.ofBytes 0 bytes
  | .folder => [.failed Place.folderMessage]

namespace SessionConfig

/-- Read streams, each by itself: the blocks of each, and how it came out. -/
def readStreams (config : SessionConfig) (streams : List Source) :
    List (List StreamBlock × StreamSummary) :=
  streams.zipIdx.map fun (source, number) =>
    (Framer.ofSource source number config.wantsDigest).run false

/-- Read streams in order: the blocks of all of them, and how each came out. -/
def frameStreams (config : SessionConfig) (streams : List Source) :
    List StreamBlock × List StreamSummary :=
  let runs := config.readStreams streams
  (runs.flatMap Prod.fst ++ [StreamBlock.endOfRun], runs.map Prod.snd)

/-- Split streams of which the number of bytes may be known. A run that is cancelled is so before it
starts. -/
def split (config : SessionConfig) (streams : List Source) (total : Option Nat)
    (cancelled : Bool) : SessionOutcome :=
  if cancelled then ⟨total, true, none, .ok none⟩
  else
    let (blocks, outcomes) := config.frameStreams streams
    let run := (Demux.start config.selection config.tolerance).run blocks
    let queue := (RecentQueue.empty config.progressCapacity).pushAll run.published
    let result := run.result.map fun split? =>
      split?.map fun split => { split with streams := outcomes }
    ⟨total, false, queue.latest.1, result⟩

/-- Split what has been opened. The sizes tell the number of bytes. -/
def splitPlaces (config : SessionConfig) (opened : List Place) (cancelled : Bool) :
    SessionOutcome :=
  config.split (opened.map Place.source) (some (totalOf Place.size opened)) cancelled

end SessionConfig

end Waveform
