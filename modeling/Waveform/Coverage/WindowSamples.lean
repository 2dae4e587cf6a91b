import Waveform.Coverage.Span

/-!
# Samples of a window

The samples of several channels in a window that all of them cover, one row a channel.
-/

namespace Waveform

/-- Why the samples of a window cannot be taken. -/
inductive WindowError where
  | trace (error : TraceError)
  /-- The segment that covers the window has another interval. -/
  | mixedIntervals (expected actual : Int)
deriving DecidableEq

/-- Rows of samples, all of the same length. -/
structure SampleMatrix where
  columns : Nat
  rows : List (List Int32)
deriving DecidableEq

namespace Span

/-- The samples of one channel in a window, from the first segment that covers it. -/
def rowOf (window : Span) (segments : List Trace) : Except WindowError (List Int32) :=
  match segments.find? fun segment => window.isWithin segment.span with
  | none => .error (.trace (.outOfTime window.start window.stop))
  | some segment =>
      if segment.interval ≠ window.interval then
        .error (.mixedIntervals window.interval segment.interval)
      else (segment.sliceFrom window.start window.sampleCount).mapError .trace

/-- The samples of all channels in a window. -/
def samplesOf (window : Span) (channels : List (List Trace)) : Except WindowError SampleMatrix :=
  (channels.mapM window.rowOf).map fun rows => ⟨window.sampleCount, rows⟩

end Span

end Waveform
