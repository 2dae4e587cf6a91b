import Waveform.Trace.Trace

/-!
# Spans of time

A span is a closed range of time that is sampled at a fixed interval: a segment of a channel, or a
window that several channels cover.
-/

namespace Waveform

/-- A closed range of time and the interval between samples in it, in microseconds. -/
structure Span where
  start : Int
  stop : Int
  interval : Int
deriving DecidableEq

namespace Span

/-- The length of the range in time. -/
def range (span : Span) : Int := span.stop - span.start

/-- The number of samples at the span's interval from its start on. -/
def sampleCount (span : Span) : Nat :=
  if span.interval ≤ 0 ∨ span.stop < span.start then 0
  else (span.range / span.interval + 1).toNat

/-- The text of a span. -/
def text (span : Span) : String := Time.text span.start ++ " - " ++ Time.text span.stop

/-- The common part of two spans, at the interval of the first. -/
def meet (first second : Span) : Span :=
  ⟨max first.start second.start, min first.stop second.stop, first.interval⟩

/-- Whether a span lies within another one. -/
def isWithin (inner outer : Span) : Bool := outer.start ≤ inner.start && inner.stop ≤ outer.stop

end Span

/-- The span of a trace. -/
def Trace.span (trace : Trace) : Span := ⟨trace.start, trace.stop, trace.interval⟩

end Waveform
