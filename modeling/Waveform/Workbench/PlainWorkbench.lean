import Waveform.Workbench.Command

/-!
# Workbenches of plain traces

The commands carried out on traces that are a start, a rate, an interval and a list of samples.
There are no pools, so that the pool a trace is created in does not matter.
-/

namespace Waveform

/-- Named traces. -/
structure PlainWorkbench where
  traces : Named Trace

namespace PlainWorkbench

/-- What a command comes to: its answer and the traces that are there afterwards. -/
abbrev Effect := Except StorageError Reply × Named Trace

/-- The trace under a name. -/
def find (traces : Named Trace) (name : String) : Except StorageError Trace :=
  match traces.find? name with
  | some trace => .ok trace
  | none => .error (.noTrace name)

/-- Answer a question about a trace. -/
def ask (traces : Named Trace) (name : String) (question : Trace → Except TraceError Reply) :
    Except StorageError Effect := do
  return (.ok (← (question (← find traces name)).mapError .trace), traces)

/-- Change a trace. -/
def change (traces : Named Trace) (name : String)
    (operation : Trace → Except TraceError Trace) : Except StorageError Effect := do
  return (.ok .done, traces.put name (← (operation (← find traces name)).mapError .trace))

/-- Carry out a command. -/
def perform (traces : Named Trace) : Command → Except StorageError Effect
  | .create name _ origin => do
      let trace ←
        match origin with
        | none => .ok Trace.empty
        | some (start, rate) => (Trace.ofRate start rate).mapError .trace
      return (.ok .done, traces.put name trace)
  | .setStart name start => change traces name fun trace => return trace.setStart start
  | .setRate name rate => change traces name fun trace => trace.setRate rate
  | .append name samples => change traces name fun trace => return trace.append samples
  | .extend name samples offset length =>
      change traces name fun trace => trace.extend samples offset length
  | .slice name index count =>
      ask traces name fun trace => .samples <$> trace.slice index count
  | .sliceFrom name time count =>
      ask traces name fun trace => .samples <$> trace.sliceFrom time count
  | .sliceBetween name first last =>
      ask traces name fun trace => .samples <$> trace.sliceBetween first last
  | .samples name => ask traces name fun trace => return .samples trace.samples
  | .crop name first last => change traces name fun trace => trace.crop first last
  | .dropBefore name first => change traces name fun trace => trace.dropBefore first
  | .dropAfter name last => change traces name fun trace => trace.dropAfter last
  | .clear name => change traces name fun trace => return trace.clear
  | .drop name => return (.ok .done, traces.remove name)
  | .digest name => ask traces name fun trace => return .text trace.digest
  | .covers name first last =>
      ask traces name fun trace => return .flag (trace.extent.covers first last)
  | .describe name => ask traces name fun trace => return .text trace.extent.text
  | .join sourceName targetName tolerance => do
      let source ← find traces sourceName
      let target ← find (traces.remove sourceName) targetName
      let joined ← (source.joinTo target tolerance).mapError .trace
      return (.ok .done, (traces.put sourceName joined.source).put targetName joined.target)
  | .compare first second => do
      let comparison := (← find traces first).extent.comparison (← find traces second).extent
      return (.ok (.comparison comparison), traces)
  | .splice name sources => do
      let (chosen, others) ← (traces.takeAll sources).mapError .noTrace
      match Trace.splice chosen with
      | .error error => return (.error (.trace error), others)
      | .ok none => return (.ok (.flag false), others)
      | .ok (some spliced) => return (.ok (.flag true), others.put name spliced)

/-- The answer to a command and the workbench after it. -/
def step (bench : PlainWorkbench) (command : Command) :
    Except StorageError Reply × PlainWorkbench :=
  match perform bench.traces command with
  | .error error => (.error error, bench)
  | .ok (reply, traces) => (reply, ⟨traces⟩)

end PlainWorkbench

end Waveform
