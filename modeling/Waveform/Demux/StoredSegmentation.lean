import Waveform.Demux.Segmentation
import Waveform.Storage.StoredTrace

/-!
# Forming traces of a pool into segments

The traces of a track are formed into segments where they are stored. What is cut off or joined to
another trace gives its blocks back, so that the traces that come after can use them.
-/

namespace Waveform

/-- How many whole intervals fit in a gap between two traces. -/
def intervalsIn (gap interval : Int) : Except TraceError Int :=
  if interval = 0 then .error .noInterval else .ok (gap.tdiv interval)

/-- Segments while they are formed. -/
structure StoredSegmentation where
  /-- The segments that are finished, in order. -/
  finished : List StoredTrace
  /-- The segment that may still grow. -/
  last : StoredTrace
  /-- How many traces were cut because they were out of step. -/
  corrections : Nat
deriving DecidableEq

namespace StoredSegmentation

/-- The time up to which samples are taken. -/
def floor? (state : StoredSegmentation) : Option Int :=
  state.finished.getLast?.map StoredTrace.stop

/-- A trace without the samples that reach back into a finished segment. -/
def aboveFloor (state : StoredSegmentation) (trace : StoredTrace) : Stored StoredTrace :=
  match state.floor? with
  | none => return trace
  | some floor => if trace.start ≤ floor then trace.dropBefore (floor + 1) else return trace

/-- Finish the last segment and go on with another one. -/
def push (state : StoredSegmentation) (segment : StoredTrace) : StoredSegmentation :=
  { state with finished := state.finished ++ [state.last], last := segment }

/-- Take in what of a trace lies above the finished segments. The gap before a new segment is
measured in intervals. -/
def addAbove (tolerance : Tolerance) (state : StoredSegmentation) (rest : StoredTrace) :
    Stored StoredSegmentation :=
  match rest.extent.joinPlan state.last.extent tolerance with
  | .ok plan => do
      let joined ← rest.applyPlan state.last plan
      discard joined.source.clear
      return { state with last := joined.target }
  | .error (.notAdjacent gap interval) => do
      discard (Stored.lift (intervalsIn gap interval))
      return state.push rest
  | .error (.misaligned _ _) => do
      let later ← rest.dropBefore (state.last.stop + 1)
      let corrected := { state with corrections := state.corrections + 1 }
      if later.length = 0 then
        discard later.clear
        return corrected
      else return corrected.push later
  | .error error => Stored.lift (.error error)

/-- Take in a trace that starts no earlier than the ones before. -/
def add (tolerance : Tolerance) (state : StoredSegmentation) (trace : StoredTrace) :
    Stored StoredSegmentation := do
  let rest ← state.aboveFloor trace
  if rest.length = 0 then
    discard rest.clear
    return state
  else state.addAbove tolerance rest

/-- All segments, in order. -/
def segments (state : StoredSegmentation) : List StoredTrace := state.finished ++ [state.last]

end StoredSegmentation

/-- The segments of some traces, and the number of corrections. -/
def segmentStoredTraces (tolerance : Tolerance) (traces : List StoredTrace) :
    Stored (List StoredTrace × Nat) :=
  match traces.mergeSort StoredTrace.startsBy with
  | [] => return ([], 0)
  | first :: rest => do
      let state ← rest.foldlM (StoredSegmentation.add tolerance) ⟨[], first, 0⟩
      return (state.segments, state.corrections)

end Waveform
