import Waveform.Workbench.Command

/-!
# Workbenches of stored traces

The commands carried out on traces whose samples are in blocks of pools. A command that fails leaves
the traces as they are, except that those of a failed splice are gone.
-/

namespace Waveform

/-- Named traces and the pools that hold their samples. -/
structure StoredWorkbench where
  pools : List Pool
  traces : Named StoredTrace

namespace StoredWorkbench

/-- What a command comes to: its answer and the traces that are there afterwards. -/
abbrev Effect := Except StorageError Reply × Named StoredTrace

/-- The trace under a name. -/
def find (traces : Named StoredTrace) (name : String) : Stored StoredTrace :=
  match traces.find? name with
  | some trace => return trace
  | none => throw (.noTrace name)

/-- Take the traces under some names off the workbench. -/
def takeAll (traces : Named StoredTrace) (names : List String) :
    Stored (List StoredTrace × Named StoredTrace) :=
  liftExcept ((traces.takeAll names).mapError StorageError.noTrace)

/-- Answer a question about a trace. -/
def ask (traces : Named StoredTrace) (name : String) (question : StoredTrace → Stored Reply) :
    Stored Effect := do
  return (.ok (← question (← find traces name)), traces)

/-- Change a trace. -/
def change (traces : Named StoredTrace) (name : String)
    (operation : StoredTrace → Stored StoredTrace) : Stored Effect := do
  return (.ok .done, traces.put name (← operation (← find traces name)))

/-- Release the blocks of the trace under a name, if there is one. -/
def release (traces : Named StoredTrace) (name : String) : Stored Unit :=
  match traces.find? name with
  | some trace => discard trace.clear
  | none => return ()

/-- Put a trace under a name and release the blocks of the one that was there. -/
def replace (traces : Named StoredTrace) (name : String) (trace : StoredTrace) :
    Stored (Named StoredTrace) := do
  release traces name
  return traces.put name trace

/-- Carry out a command. -/
def perform (traces : Named StoredTrace) : Command → Stored Effect
  | .create name pool origin => do
      let trace ←
        match origin with
        | none => pure (StoredTrace.empty pool)
        | some (start, rate) =>
            Stored.lift (((StoredTrace.empty pool).setStart start).setRate rate)
      return (.ok .done, ← replace traces name trace)
  | .setStart name start => change traces name fun trace => return trace.setStart start
  | .setRate name rate => change traces name fun trace => Stored.lift (trace.setRate rate)
  | .append name samples => change traces name fun trace => trace.append samples
  | .extend name samples offset length =>
      change traces name fun trace => trace.extend samples offset length
  | .slice name index count =>
      ask traces name fun trace => .samples <$> trace.slice index count
  | .sliceFrom name time count =>
      ask traces name fun trace => .samples <$> trace.sliceFrom time count
  | .sliceBetween name first last =>
      ask traces name fun trace => .samples <$> trace.sliceBetween first last
  | .samples name => ask traces name fun trace => .samples <$> trace.samples
  | .crop name first last => change traces name fun trace => trace.crop first last
  | .dropBefore name first => change traces name fun trace => trace.dropBefore first
  | .dropAfter name last => change traces name fun trace => trace.dropAfter last
  | .clear name => change traces name fun trace => trace.clear
  | .drop name => do
      release traces name
      return (.ok .done, traces.remove name)
  | .digest name => ask traces name fun trace => .text <$> trace.digest
  | .covers name first last =>
      ask traces name fun trace => return .flag (trace.extent.covers first last)
  | .describe name => ask traces name fun trace => return .text trace.extent.text
  | .join sourceName targetName tolerance => do
      let source ← find traces sourceName
      let target ← find (traces.remove sourceName) targetName
      let joined ← source.joinTo target tolerance
      return (.ok .done, (traces.put sourceName joined.source).put targetName joined.target)
  | .compare first second => do
      let comparison := (← find traces first).extent.comparison (← find traces second).extent
      return (.ok (.comparison comparison), traces)
  | .splice name sources => do
      let (chosen, others) ← takeAll traces sources
      match ← StoredTrace.splice chosen with
      | .error error => return (.error (.trace error), others)
      | .ok none => return (.ok (.flag false), others)
      | .ok (some spliced) => return (.ok (.flag true), ← replace others name spliced)

/-- The answer to a command and the workbench after it. -/
def step (bench : StoredWorkbench) (command : Command) :
    Except StorageError Reply × StoredWorkbench :=
  match (perform bench.traces command).run.run bench.pools with
  | (.error error, pools) => (.error error, ⟨pools, bench.traces⟩)
  | (.ok (reply, traces), pools) => (reply, ⟨pools, traces⟩)

/-- The answer to a question about the pools that leaves them as they are. -/
def query {α : Type} (bench : StoredWorkbench) (question : Stored α) : Except StorageError α :=
  (question.run.run bench.pools).1

/-- The block size of the pool that a trace is stored in. -/
def blockSizeOf (bench : StoredWorkbench) (name : String) : Except StorageError Nat :=
  match bench.traces.find? name with
  | none => .error (.noTrace name)
  | some trace =>
      match bench.pools[trace.pool]? with
      | none => .error (.noPool trace.pool)
      | some pool => .ok pool.blockSize

end StoredWorkbench

end Waveform
