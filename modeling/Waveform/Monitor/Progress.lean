/-!
# Progress snapshots

What a run tells about itself while it is going on: how much of its work is done, and whether it has
come to an end. A run that is not complete never reports one hundred per cent.
-/

namespace Waveform

/-- Why a run failed. -/
inductive FailureKind where
  /-- An input stream could not be read. -/
  | stream
  /-- Segments of different intervals were combined. -/
  | intervalMismatch
deriving DecidableEq

/-- The name of a kind of failure. -/
def FailureKind.name : FailureKind → String
  | .stream => "stream"
  | .intervalMismatch => "interval_mismatch"

/-- How a run failed. -/
structure RunFailure where
  kind : FailureKind
  message : String
deriving DecidableEq

/-- The largest number that counters hold. -/
def counterLimit : Nat := UInt64.size - 1

/-- The share of the work that is done, in hundredths and below one hundred. -/
def percentOf (done total : Nat) : Nat :=
  if total = 0 then 0 else min (min (done * 100) counterLimit / total) 99

/-- Where a splitting run stands. -/
inductive SplitStage where
  | running
  /-- A stream has come to its end. -/
  | streamDone (stream : Nat)
  | complete
  | failed (failure : RunFailure)
deriving DecidableEq

/-- A snapshot of a splitting run. -/
structure SplitProgress where
  /-- The bytes processed so far, those skipped included. -/
  bytes : Nat
  stage : SplitStage
deriving DecidableEq

namespace SplitProgress

/-- Whether the run has failed. -/
def isError (progress : SplitProgress) : Bool :=
  match progress.stage with
  | .failed _ => true
  | _ => false

/-- The share of a number of bytes that is processed, in hundredths. -/
def percent (progress : SplitProgress) (total : Nat) : Nat :=
  match progress.stage with
  | .complete => 100
  | _ => percentOf progress.bytes total

end SplitProgress

/-- A snapshot of a search for common coverage. -/
inductive SearchProgress where
  | running (processed total : Nat)
  | complete
  | failed (failure : RunFailure)
deriving DecidableEq

namespace SearchProgress

/-- The share of the segments that is processed, in hundredths. -/
def percent : SearchProgress → Nat
  | .running processed total => percentOf processed total
  | .complete => 100
  | .failed _ => 0

end SearchProgress

end Waveform
