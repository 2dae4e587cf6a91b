import Waveform.ByteOrder
import Waveform.Digest.Md5
import Waveform.Trace.JoinPlan

/-!
# Traces

A trace is a run of samples with a start time and an interval. Traces are narrowed to windows of
time, joined where they overlap or follow each other, and spliced into one that disregards gaps.
-/

namespace Waveform

/-- Samples that follow each other at a fixed interval. -/
structure Trace where
  /-- The time of the first sample. -/
  start : Int
  /-- The sample rate as it was given. -/
  rate : Float
  /-- The interval of the rate, zero as long as no rate is known. -/
  interval : Int
  samples : List Int32
deriving DecidableEq

namespace Trace

/-- A trace without samples or rate. -/
def empty : Trace := ⟨0, 0, 0, []⟩

/-- Where the samples lie in time. -/
def extent (trace : Trace) : Extent := ⟨trace.start, trace.interval, trace.samples.length⟩

/-- The time of the last sample. -/
def stop (trace : Trace) : Int := trace.extent.stop

/-- The trace moved to another start. -/
def setStart (trace : Trace) (start : Int) : Trace := { trace with start }

/-- The trace at another rate, which must be legal, and of the same interval if there are
samples. -/
def setRate (trace : Trace) (rate : Float) : Except TraceError Trace :=
  match SampleRate.interval? rate with
  | none => .error (.illegalRate rate)
  | some interval =>
      if trace.samples ≠ [] ∧ trace.interval ≠ interval then
        .error (.intervalMismatch interval trace.interval)
      else .ok { trace with rate, interval }

/-- A trace without samples that starts at a time and has a legal rate. -/
def ofRate (start : Int) (rate : Float) : Except TraceError Trace :=
  (empty.setStart start).setRate rate

/-- The trace with more samples at its end. -/
def append (trace : Trace) (samples : List Int32) : Trace :=
  { trace with samples := trace.samples ++ samples }

/-- The part of a list that an offset and a length name. -/
def part? (samples : List Int32) (offset length : Nat) : Except TraceError (List Int32) :=
  if offset + length ≤ samples.length then .ok ((samples.drop offset).take length)
  else .error (.outOfRange offset length samples.length)

/-- The trace with a part of a list at its end. -/
def extend (trace : Trace) (samples : List Int32) (offset length : Nat) :
    Except TraceError Trace :=
  (part? samples offset length).map trace.append

/-- The samples of a run of indices. -/
def read (trace : Trace) (run : IndexRun) : List Int32 :=
  (trace.samples.drop run.first).take run.count

/-- So many samples from an index on. -/
def slice (trace : Trace) (index count : Nat) : Except TraceError (List Int32) :=
  (trace.extent.run index count).map trace.read

/-- So many samples from the first one at or after a time on. -/
def sliceFrom (trace : Trace) (time : Int) (count : Nat) : Except TraceError (List Int32) :=
  (trace.extent.runFrom time count).map trace.read

/-- The samples in a window of time that the trace covers. -/
def sliceBetween (trace : Trace) (first last : Int) : Except TraceError (List Int32) :=
  (trace.extent.runBetween first last).map trace.read

/-- The trace with only a run of its samples. -/
def keep (trace : Trace) (kept : IndexRun) : Trace :=
  { trace with start := (trace.extent.keep kept).start, samples := trace.read kept }

/-- The trace narrowed to the samples in a window of time. -/
def crop (trace : Trace) (first last : Int) : Except TraceError Trace :=
  (trace.extent.runWithin first last).map trace.keep

/-- The trace without the samples before a time. -/
def dropBefore (trace : Trace) (first : Int) : Except TraceError Trace :=
  trace.crop first trace.stop

/-- The trace without the samples after a time. -/
def dropAfter (trace : Trace) (last : Int) : Except TraceError Trace :=
  trace.crop trace.start last

/-- The trace without samples. -/
def clear (trace : Trace) : Trace := { trace with samples := [] }

/-- The outcome of joining a source to a target. -/
structure Joined where
  /-- What is left of the source, which has no samples any more. -/
  source : Trace
  target : Trace
deriving DecidableEq

/-- Join two traces as planned. -/
def applyPlan (source target : Trace) : JoinPlan → Joined
  | .keepTarget => ⟨source.clear, target⟩
  | .exchange => ⟨target, source⟩
  | .sourceAfter covered => ⟨source.clear, target.append (source.samples.drop covered)⟩
  | .sourceBefore covered => ⟨target.clear, source.append (target.samples.drop covered)⟩

/-- Join a source to a target. Where both have samples those of the earlier one are kept. -/
def joinTo (source target : Trace) (tolerance : Tolerance) : Except TraceError Joined :=
  (source.extent.joinPlan target.extent tolerance).map (applyPlan source target)

/-- Whether two traces cannot be joined because of where the two traces lie in time. -/
def isDisjointness : TraceError → Bool
  | .notAdjacent _ _ | .misaligned _ _ => true
  | _ => false

/-- Add a trace that starts no earlier to a spliced one. Where they cannot be joined, the samples
after the last spliced one follow it directly. -/
def spliceOnto (spliced next : Trace) : Except TraceError Trace :=
  match next.joinTo spliced Tolerance.standard with
  | .ok joined => .ok joined.target
  | .error error =>
      if isDisjointness error then
        if next.start ≤ spliced.stop then
          (next.dropBefore (spliced.stop + 1)).map fun rest => spliced.append rest.samples
        else .ok (spliced.append next.samples)
      else .error error

/-- Whether a trace starts no later than another one. -/
def startsBy (first second : Trace) : Bool := first.start ≤ second.start

/-- Combine traces into one, in the order of their starts and disregarding gaps. There is none
without samples. -/
def splice (traces : List Trace) : Except TraceError (Option Trace) :=
  match (traces.filter fun trace => trace.samples ≠ []).mergeSort startsBy with
  | [] => .ok none
  | first :: rest => some <$> rest.foldlM spliceOnto first

/-- The bytes that a digest is taken of: start, rate and samples, each with its most significant
byte first. -/
def digestBytes (start : Int) (rate : Float) (samples : List Int32) : List UInt8 :=
  bigEndianBytes 8 start ++ bigEndianBytes 8 rate.toBits.toNat ++
    samples.flatMap fun sample => bigEndianBytes 4 sample.toInt

/-- The digest of the start, the rate and the samples. -/
def digest (trace : Trace) : String := Md5.text (digestBytes trace.start trace.rate trace.samples)

@[simp] theorem extent_start (trace : Trace) : trace.extent.start = trace.start := rfl

@[simp] theorem extent_interval (trace : Trace) : trace.extent.interval = trace.interval := rfl

@[simp] theorem extent_length (trace : Trace) : trace.extent.length = trace.samples.length := rfl

@[simp] theorem samples_append (trace : Trace) (samples : List Int32) :
    (trace.append samples).samples = trace.samples ++ samples := rfl

/-- Sorted traces are in the order of their starts. -/
theorem pairwise_startsBy (traces : List Trace) :
    (traces.mergeSort startsBy).Pairwise fun first second => first.start ≤ second.start := by
  refine List.Pairwise.imp ?_ (List.pairwise_mergeSort ?_ ?_ traces)
  · simp [startsBy]
  · intro first second third
    simp only [startsBy, decide_eq_true_eq]
    exact Int.le_trans
  · intro first second
    simpa [startsBy] using Int.le_total first.start second.start

end Trace

end Waveform
