import Waveform.Proofs.Workbench.Effects
import Waveform.Proofs.Workbench.Simulation

/-!
# Scripts on stored and on plain traces

A script is carried out command by command. On traces stored in pools it answers what it answers on
plain traces, and all that can be told of a trace afterwards is the same.
-/

namespace Waveform

/-- All that can be told of a trace. -/
structure Observation where
  start : Int
  stop : Int
  length : Nat
  interval : Int
  rate : Float
  samples : List Int32
  digest : String

def Trace.observe (trace : Trace) : Observation where
  start := trace.start
  stop := trace.stop
  length := trace.samples.length
  interval := trace.interval
  rate := trace.rate
  samples := trace.samples
  digest := trace.digest

def StoredTrace.observe (trace : StoredTrace) : Stored Observation := do
  let samples ← trace.samples
  let digest ← trace.digest
  return { start := trace.start, stop := trace.stop, length := trace.length,
           interval := trace.interval, rate := trace.rate, samples, digest }

/-- Carry out commands in order. The answers are those to the commands. -/
def PlainWorkbench.run (bench : PlainWorkbench) :
    List Command → List (Except StorageError Reply) × PlainWorkbench
  | [] => ([], bench)
  | command :: later =>
      let (reply, next) := bench.step command
      let (replies, final) := next.run later
      (reply :: replies, final)

/-- What can be told of the trace under a name, if there is one. -/
def PlainWorkbench.observe (bench : PlainWorkbench) (name : String) : Option Observation :=
  (bench.traces.find? name).map Trace.observe

/-- Carry out commands in order. The answers are those to the commands. -/
def StoredWorkbench.run (bench : StoredWorkbench) :
    List Command → List (Except StorageError Reply) × StoredWorkbench
  | [] => ([], bench)
  | command :: later =>
      let (reply, next) := bench.step command
      let (replies, final) := next.run later
      (reply :: replies, final)

/-- What can be told of the trace under a name, if there is one and its samples can be read. -/
def StoredWorkbench.observe (bench : StoredWorkbench) (name : String) :
    Option (Except StorageError Observation) :=
  (bench.traces.find? name).map fun trace => bench.query trace.observe

namespace StoredWorkbench

section

variable {blockSizes : List Nat} {stored : StoredWorkbench} {plain : PlainWorkbench}

/-- A workbench that mirrors a plain one tells the same of every trace. -/
theorem observe_eq (mirrors : Mirrors blockSizes stored.traces plain.traces stored.pools)
    (name : String) : stored.observe name = (plain.observe name).map .ok := by
  obtain ⟨entries, distinct, isStored, isPlain, holds⟩ := mirrors
  simp only [observe, PlainWorkbench.observe, query]
  rw [isStored, isPlain, Named.find?_mapValues, Named.find?_mapValues]
  cases found : entries.find? name with
  | none => rfl
  | some entry =>
      obtain ⟨trace, plainTrace⟩ := entry
      have held := holds_of_find? distinct holds found
      have describes := held.describes_head
      have isObserved : trace.observe stored.pools = (.ok plainTrace.observe, stored.pools) := by
        simp only [StoredTrace.observe]
        rw [Process.bind_of_ok (StoredTrace.samples_eq held),
          Process.bind_of_ok (StoredTrace.digest_eq held), describes.start, describes.stop_eq,
          describes.length, describes.interval, describes.rate]
        rfl
      exact congrArg some (congrArg Prod.fst isObserved)

/-- A step gets the same answer on both workbenches, and they mirror each other afterwards. -/
theorem step_mirrors (mirrors : Mirrors blockSizes stored.traces plain.traces stored.pools)
    (command : Command) (fits : command.FitsPools blockSizes.length) :
    (stored.step command).1 = (plain.step command).1 ∧
      Mirrors blockSizes (stored.step command).2.traces (plain.step command).2.traces
        (stored.step command).2.pools := by
  have simulates := perform_simulates mirrors command fits
  simp only [step, PlainWorkbench.step]
  cases plainEffect : PlainWorkbench.perform plain.traces command with
  | error error =>
      rw [plainEffect] at simulates
      have isError : (perform stored.traces command).run.run stored.pools =
          (.error error, stored.pools) := simulates
      rw [isError]
      exact ⟨rfl, mirrors⟩
  | ok effect =>
      rw [plainEffect] at simulates
      obtain ⟨result, changed, isResult, sameReply, mirrored⟩ := simulates
      have isEffect : (perform stored.traces command).run.run stored.pools =
          (.ok result, changed) := isResult
      rw [isEffect]
      exact ⟨sameReply, mirrored⟩

/-- A run gets the same answers on both workbenches, and they mirror each other afterwards. -/
theorem run_mirrors (mirrors : Mirrors blockSizes stored.traces plain.traces stored.pools)
    (script : List Command) (fits : ∀ command ∈ script, command.FitsPools blockSizes.length) :
    (stored.run script).1 = (plain.run script).1 ∧
      Mirrors blockSizes (stored.run script).2.traces (plain.run script).2.traces
        (stored.run script).2.pools := by
  induction script generalizing stored plain with
  | nil => exact ⟨rfl, mirrors⟩
  | cons command later ih =>
      obtain ⟨sameReply, mirrored⟩ := step_mirrors mirrors command (fits command List.mem_cons_self)
      obtain ⟨sameReplies, final⟩ :=
        ih mirrored fun next member => fits next (List.mem_cons_of_mem command member)
      exact ⟨congrArg₂ List.cons sameReply sameReplies, final⟩

/-- A step leaves what can be told of the traces that its command does not change. -/
theorem observe_step (mirrors : Mirrors blockSizes stored.traces plain.traces stored.pools)
    (command : Command) (fits : command.FitsPools blockSizes.length) {name : String}
    (unchanged : name ∉ command.changes) :
    (stored.step command).2.observe name = stored.observe name := by
  rw [observe_eq (step_mirrors mirrors command fits).2 name, observe_eq mirrors name]
  apply congrArg (Option.map Except.ok)
  simp only [PlainWorkbench.observe, PlainWorkbench.step]
  cases carriedOut : PlainWorkbench.perform plain.traces command with
  | error error => rfl
  | ok effect =>
      apply congrArg (Option.map Trace.observe)
      exact (PlainWorkbench.perform_within carriedOut).others name unchanged

/-- A step that is answered with an error leaves the workbench, unless its command uses up its
traces. -/
theorem step_of_error (mirrors : Mirrors blockSizes stored.traces plain.traces stored.pools)
    {command : Command} (fits : command.FitsPools blockSizes.length)
    (keeps : command.consumes = false) {error : StorageError}
    (failed : (stored.step command).1 = .error error) : (stored.step command).2 = stored := by
  have simulates := perform_simulates mirrors command fits
  cases carriedOut : PlainWorkbench.perform plain.traces command with
  | error reason =>
      rw [carriedOut] at simulates
      have isError : (perform stored.traces command).run.run stored.pools =
          (.error reason, stored.pools) := simulates
      simp only [step]
      rw [isError]
  | ok effect =>
      obtain ⟨reply, isReply⟩ := (PlainWorkbench.perform_within carriedOut).answered keeps
      rw [(step_mirrors mirrors command fits).1, PlainWorkbench.step, carriedOut] at failed
      rw [isReply] at failed
      cases failed

end

/-- A run that starts without traces, in pools that lend no blocks, gets the same answers as the
plain one, and they mirror each other afterwards. -/
theorem run_mirrors_nil {pools : List Pool} (idle : ∀ pool ∈ pools, pool.Lends [])
    (script : List Command) (fits : ∀ command ∈ script, command.FitsPools pools.length) :
    (run ⟨pools, []⟩ script).1 = (PlainWorkbench.run ⟨[]⟩ script).1 ∧
      Mirrors (pools.map Pool.blockSize) (run ⟨pools, []⟩ script).2.traces
        (PlainWorkbench.run ⟨[]⟩ script).2.traces (run ⟨pools, []⟩ script).2.pools := by
  have mirrors : Mirrors (pools.map Pool.blockSize) [] [] pools :=
    ⟨[], List.nodup_nil, rfl, rfl, holds_nil idle⟩
  apply run_mirrors mirrors script
  rwa [List.length_map]

/-- A script on traces in pools that lend no blocks, such as new ones, comes to what it comes to on
plain traces: it gets the same answers, and after every step the same can be told of every trace. So
a further command changes no trace that it is not applied to, and nothing at all if it fails without
using up its traces; and the same script gets the same answers, and the same can be told, in any
other pools, whatever their block sizes, old contents and free blocks. -/
theorem run_eq_plain {pools : List Pool} (idle : ∀ pool ∈ pools, pool.Lends [])
    (script : List Command) (fits : ∀ command ∈ script, command.FitsPools pools.length) :
    (run ⟨pools, []⟩ script).1 = (PlainWorkbench.run ⟨[]⟩ script).1 ∧
      ∀ done : Nat,
        let stored := (run ⟨pools, []⟩ (script.take done)).2
        let plain := (PlainWorkbench.run ⟨[]⟩ (script.take done)).2
        (∀ name, stored.observe name = (plain.observe name).map .ok) ∧
        (∀ command : Command, command.FitsPools pools.length →
          (∀ name, name ∉ command.changes →
            (stored.step command).2.observe name = stored.observe name) ∧
          (command.consumes = false → ∀ error, (stored.step command).1 = .error error →
            (stored.step command).2 = stored)) ∧
        ∀ others : List Pool, (∀ pool ∈ others, pool.Lends []) →
          (∀ command ∈ script, command.FitsPools others.length) →
          (run ⟨others, []⟩ script).1 = (run ⟨pools, []⟩ script).1 ∧
            ∀ name, (run ⟨others, []⟩ (script.take done)).2.observe name = stored.observe name := by
  have partFits {count : Nat} (allFit : ∀ command ∈ script, command.FitsPools count) (done : Nat) :
      ∀ command ∈ script.take done, command.FitsPools count :=
    fun command member => allFit command (List.mem_of_mem_take member)
  have sameReplies := (run_mirrors_nil idle script fits).1
  refine ⟨sameReplies, ?_⟩
  intro done stored plain
  have partMirrors := (run_mirrors_nil idle (script.take done) (partFits fits done)).2
  refine ⟨observe_eq partMirrors, ?_, ?_⟩
  · intro command commandFits
    rw [← List.length_map Pool.blockSize] at commandFits
    constructor
    case left =>
      intro name unchanged
      exact observe_step partMirrors command commandFits unchanged
    case right =>
      intro keeps error failed
      exact step_of_error partMirrors commandFits keeps failed
  · intro others othersIdle othersFit
    have othersMirror :=
      (run_mirrors_nil othersIdle (script.take done) (partFits othersFit done)).2
    constructor
    case left =>
      have othersReplies := (run_mirrors_nil othersIdle script othersFit).1
      exact othersReplies.trans sameReplies.symm
    case right =>
      intro name
      exact (observe_eq othersMirror name).trans (observe_eq partMirrors name).symm

/-- New pools of blocks of one and of three samples. -/
def newPools : List Pool := [1, 3].filterMap Pool.ofBlockSize?

/-- Pools of blocks of two samples, one of which has been used before. -/
def usedPools : List Pool :=
  ⟨2, by decide, #[[7, 8], [9, 0]], #[false, false], by decide, [1, 0]⟩ ::
    [2].filterMap Pool.ofBlockSize?

/-- Blocks of one trace are released, and reused if the traces share a pool. -/
def reusingScript : List Command :=
  [.create "first" 0 none, .append "first" [1, 2, 3, 4], .create "second" 0 none, .clear "first",
    .append "second" [5, 6], .samples "second", .slice "second" 1 2]

theorem run_eq_plain_reused :
    (run ⟨newPools, []⟩ reusingScript).1 =
        [.ok .done, .ok .done, .ok .done, .ok .done, .ok .done, .ok (.samples [5, 6]),
          .error (.trace (.outOfRange 1 2 2))] ∧
      (run ⟨usedPools, []⟩ reusingScript).1 = (run ⟨newPools, []⟩ reusingScript).1 := by
  have newIdle : ∀ pool ∈ newPools, pool.Lends [] := fun _ => Pool.lends_of_mem_new
  have usedIdle : ∀ pool ∈ usedPools, pool.Lends [] := by
    intro pool member
    rcases List.mem_cons.mp member with rfl | isNew
    · exact Pool.lends_of_free (by decide) (by decide) (by decide)
    · exact Pool.lends_of_mem_new isNew
  have newFits : ∀ command ∈ reusingScript, command.FitsPools newPools.length := by
    simp [reusingScript, Command.FitsPools, newPools, Pool.ofBlockSize?]
  have usedFits : ∀ command ∈ reusingScript, command.FitsPools usedPools.length := by
    simp [reusingScript, Command.FitsPools, usedPools, Pool.ofBlockSize?]
  obtain ⟨sameReplies, steps⟩ := run_eq_plain newIdle reusingScript newFits
  constructor
  · rw [sameReplies]
    rfl
  · exact ((steps 0).2.2 usedPools usedIdle usedFits).1

end StoredWorkbench

end Waveform
