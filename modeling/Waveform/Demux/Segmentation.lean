import Waveform.Trace.Trace

/-!
# Forming traces into segments

The closed traces of a track, which may repeat, overlap and come in any order, are turned into
segments that are in order and do not overlap. In the order of their starts each trace is joined to
the last segment where that is possible. A trace that starts after a gap becomes the next segment.
One that overlaps out of step is cut down to what lies behind the last segment.
-/

namespace Waveform

/-- Segments while they are formed. -/
structure Segmentation where
  /-- The segments that are finished, in order. -/
  finished : List Trace
  /-- The segment that may still grow. -/
  last : Trace
  /-- How many traces were cut because they were out of step. -/
  corrections : Nat
deriving DecidableEq

namespace Segmentation

/-- The time up to which samples are taken. -/
def floor? (state : Segmentation) : Option Int := state.finished.getLast?.map Trace.stop

/-- A trace without the samples that reach back into a finished segment. -/
def aboveFloor (state : Segmentation) (trace : Trace) : Except TraceError Trace :=
  match state.floor? with
  | none => .ok trace
  | some floor => if trace.start ≤ floor then trace.dropBefore (floor + 1) else .ok trace

/-- Finish the last segment and go on with another one. -/
def push (state : Segmentation) (segment : Trace) : Segmentation :=
  { state with finished := state.finished ++ [state.last], last := segment }

/-- Take in a trace that starts no earlier than the ones before. -/
def add (tolerance : Tolerance) (state : Segmentation) (trace : Trace) :
    Except TraceError Segmentation := do
  let rest ← state.aboveFloor trace
  if rest.samples = [] then return state
  match rest.joinTo state.last tolerance with
  | .ok joined => return { state with last := joined.target }
  | .error (.notAdjacent _ _) => return state.push rest
  | .error (.misaligned _ _) =>
      let later ← rest.dropBefore (state.last.stop + 1)
      let corrected := { state with corrections := state.corrections + 1 }
      return if later.samples = [] then corrected else corrected.push later
  | .error error => .error error

/-- All segments, in order. -/
def segments (state : Segmentation) : List Trace := state.finished ++ [state.last]

end Segmentation

/-- The segments of some traces, and the number of corrections. -/
def segmentTraces (tolerance : Tolerance) (traces : List Trace) :
    Except TraceError (List Trace × Nat) :=
  match traces.mergeSort Trace.startsBy with
  | [] => .ok ([], 0)
  | first :: rest =>
      (rest.foldlM (Segmentation.add tolerance) ⟨[], first, 0⟩).map fun state =>
        (state.segments, state.corrections)

end Waveform
