import Waveform.Demux.Demux
import Waveform.Monitor.Progress

/-!
# Splitting runs

A run processes blocks up to the one that ends it, publishing a snapshot after each, and then comes
to its result. It fails if a stream failed, with the first such failure.
-/

namespace Waveform

/-- Why a run has no result. -/
inductive SplitError where
  | stream (failure : StreamFailure)
  | trace (error : TraceError)
deriving DecidableEq

/-- The complaint about a run. -/
def SplitError.message : SplitError → String
  | .stream failure => failure.message
  | .trace error => error.message

/-- What a run comes to. -/
structure SplitRun where
  /-- The result, none if the run was cancelled. -/
  result : Except SplitError (Option Split)
  /-- All snapshots, in order. -/
  published : List SplitProgress
  /-- How many blocks were left when the run ended. -/
  left : Nat

namespace Demux

/-- The snapshot after a block has been processed. -/
def snapshot (demux : Demux) (block : StreamBlock) : SplitProgress :=
  ⟨demux.counters.bytes,
    if block.isEnd && !block.isLast then .streamDone block.stream else .running⟩

/-- Process blocks up to the one that ends the run. The results are the snapshots, the state, and
the blocks after that one. -/
def drain (demux : Demux) : List StreamBlock → List SplitProgress × Demux × List StreamBlock
  | [] => ([], demux, [])
  | block :: later =>
      match demux.receive block with
      | (.stop, next) => ([next.snapshot block], next, later)
      | (.goOn, next) =>
          let (published, final, left) := next.drain later
          (next.snapshot block :: published, final, left)

/-- The result of a run whose blocks have been processed, and its last snapshot. -/
def conclude (demux : Demux) : Except SplitError (Option Split) × SplitProgress :=
  match demux.failure with
  | some failure =>
      (.error (.stream failure), ⟨failure.bytes, .failed ⟨.stream, failure.reason⟩⟩)
  | none =>
      match demux.finish with
      | .ok split => (.ok (some split), ⟨demux.counters.bytes, .complete⟩)
      | .error error =>
          (.error (.trace error),
            ⟨demux.counters.bytes, .failed ⟨.intervalMismatch, error.message⟩⟩)

/-- Run on blocks. -/
def run (demux : Demux) (blocks : List StreamBlock) : SplitRun :=
  let (published, final, left) := demux.drain blocks
  let (result, last) := final.conclude
  ⟨result, published ++ [last], left.length⟩

/-- A run that is cancelled before it starts drops all blocks. -/
def runCancelled : SplitRun := ⟨.ok none, [], 0⟩

end Demux

end Waveform
