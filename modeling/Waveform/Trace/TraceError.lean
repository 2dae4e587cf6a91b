import Waveform.SampleRate

/-!
# Faults of trace operations

Why an operation on traces cannot be carried out.
-/

namespace Waveform

/-- Why an operation on traces fails. -/
inductive TraceError where
  /-- The rate is not legal. -/
  | illegalRate (rate : Float)
  /-- Two traces, or a trace and a rate given to it, have different intervals. -/
  | intervalMismatch (source target : Int)
  /-- Two traces neither overlap nor follow each other. -/
  | notAdjacent (gap interval : Int)
  /-- Two traces overlap, but their samples fall between each other. -/
  | misaligned (offset interval : Int)
  /-- Samples are asked for that a list of so many does not hold. -/
  | outOfRange (index count length : Nat)
  /-- A time window is not covered. -/
  | outOfTime (first last : Int)
  /-- Samples without an interval have no times to look them up by. -/
  | noInterval
deriving DecidableEq

/-- The complaint about an operation. -/
def TraceError.message : TraceError → String
  | .illegalRate rate => SampleRate.illegalMessage rate
  | .intervalMismatch source target => s!"interval mismatch: {source}us vs {target}us"
  | .notAdjacent gap interval =>
      s!"sequences are not adjacent: {gap}us between them at interval {interval}us"
  | .misaligned offset interval =>
      s!"overlapping sequences are misaligned by {offset}us at interval {interval}us"
  | .outOfRange index count length =>
      s!"requested {count} samples at index {index} from a sequence of {length}"
  | .outOfTime first last => s!"time window {first}..={last} is outside of sequence data"
  | .noInterval => "attempt to divide by zero"

end Waveform
