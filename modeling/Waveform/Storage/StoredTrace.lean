import Waveform.Storage.Pool
import Waveform.Trace.Trace

/-!
# Traces stored in pools

A stored trace keeps its samples in blocks of a pool: sample `i` is in block `i / blockSize` of its
list of blocks, at offset `i % blockSize`. The operations are those of plain traces; they release
blocks that are no longer needed and reuse them as soon as they can. Where two traces are joined,
each stays in its own pool.
-/

namespace Waveform

/-- Why an operation on stored traces fails. -/
inductive StorageError where
  | trace (error : TraceError)
  | pool (error : PoolError)
  /-- There is no pool of this number. -/
  | noPool (number : Nat)
  /-- There is no trace of this name. -/
  | noTrace (name : String)
  /-- There is no track at this place. -/
  | noTrack (place : Nat)
deriving DecidableEq

/-- The complaint about an operation. -/
def StorageError.message : StorageError → String
  | .trace error => error.message
  | .pool error => error.message
  | .noPool number => s!"there is no pool {number}"
  | .noTrace name => "there is no trace " ++ name
  | .noTrack place => s!"there is no track at place {place}"

/-- An operation that uses several pools. If it fails, what it has done to them before stays done.
-/
abbrev Stored (α : Type) := Process (List Pool) StorageError α

namespace Stored

/-- Use one of the pools. -/
def onPool {α : Type} (number : Nat) (use : PoolUse α) : Stored α := do
  let pools ← get
  match pools[number]? with
  | none => throw (.noPool number)
  | some pool =>
      let (result, changed) := use.run.run pool
      set (pools.set number changed)
      liftExcept (result.mapError StorageError.pool)

/-- Carry out a computation that uses no pool. -/
def lift {α : Type} (result : Except TraceError α) : Stored α :=
  liftExcept (result.mapError StorageError.trace)

end Stored

/-- A trace whose samples are in blocks of a pool. -/
structure StoredTrace where
  /-- The number of the pool. -/
  pool : Nat
  /-- The blocks with the samples, in order. -/
  blocks : List Nat
  length : Nat
  start : Int
  rate : Float
  interval : Int
deriving DecidableEq

namespace Pool

/-- The block that the sample after `length` others goes to. It is the last one of the list, unless
that is full; then a block is checked out and added to the list. -/
def blockForNext (blocks : List Nat) (length : Nat) : PoolUse (Nat × List Nat) := do
  let pool ← get
  match blocks[length / pool.blockSize]? with
  | some block => return (block, blocks)
  | none =>
      let block ← checkout
      return (block, blocks ++ [block])

/-- Add samples to the end of a list of blocks that holds `length` samples, block by block. -/
def appendTo (blocks : List Nat) (length : Nat) (samples : List Int32) : PoolUse (List Nat) := do
  if samples = [] then return blocks
  else
    let pool ← get
    let offset := length % pool.blockSize
    let room := pool.blockSize - offset
    let (block, longer) ← blockForNext blocks length
    write block offset (samples.take room)
    appendTo longer (length + (samples.take room).length) (samples.drop room)
termination_by samples.length
decreasing_by
  have room_pos : 0 < pool.blockSize - length % pool.blockSize :=
    Nat.sub_pos_of_lt (Nat.mod_lt _ pool.blockSize_pos)
  have nonempty : 0 < samples.length := List.length_pos_iff.2 (by assumption)
  simp only [List.length_drop]
  omega

/-- Read samples of a list of blocks, from an index on. -/
def readFrom (blocks : List Nat) (index count : Nat) : PoolUse (List Int32) := do
  if count = 0 then return []
  else
    let pool ← get
    let offset := index % pool.blockSize
    let taken := min (pool.blockSize - offset) count
    match blocks[index / pool.blockSize]? with
    | none => throw (.unknownBlock (index / pool.blockSize))
    | some block =>
        let here ← read block offset taken
        let later ← readFrom blocks (index + taken) (count - taken)
        return here ++ later
termination_by count
decreasing_by
  have room_pos : 0 < pool.blockSize - index % pool.blockSize :=
    Nat.sub_pos_of_lt (Nat.mod_lt _ pool.blockSize_pos)
  omega

/-- Read the first `length` samples of a list of blocks, block by block. -/
def readBlocks : List Nat → Nat → PoolUse (List Int32)
  | [], _ => return []
  | block :: later, length => do
      let pool ← get
      let here ← read block 0 (min length pool.blockSize)
      let rest ← readBlocks later (length - pool.blockSize)
      return here ++ rest

/-- Release blocks in order. Where some cannot be released the others are, and the last failure
counts. -/
def releaseAll : List Nat → PoolUse Unit
  | [] => return ()
  | block :: later => do
      let outcome ← (release block).attempt
      releaseAll later
      liftExcept outcome

end Pool

namespace StoredTrace

/-- A trace without samples or rate in a pool. -/
def empty (pool : Nat) : StoredTrace := ⟨pool, [], 0, 0, 0, 0⟩

/-- Where the samples lie in time. -/
def extent (trace : StoredTrace) : Extent := ⟨trace.start, trace.interval, trace.length⟩

/-- The time of the last sample. -/
def stop (trace : StoredTrace) : Int := trace.extent.stop

/-- The trace moved to another start. -/
def setStart (trace : StoredTrace) (start : Int) : StoredTrace := { trace with start }

/-- The trace at another rate, which must be legal, and of the same interval if there are
samples. -/
def setRate (trace : StoredTrace) (rate : Float) : Except TraceError StoredTrace :=
  match SampleRate.interval? rate with
  | none => .error (.illegalRate rate)
  | some interval =>
      if trace.length ≠ 0 ∧ trace.interval ≠ interval then
        .error (.intervalMismatch interval trace.interval)
      else .ok { trace with rate, interval }

/-- Add samples at the end. -/
def append (trace : StoredTrace) (samples : List Int32) : Stored StoredTrace := do
  let blocks ← Stored.onPool trace.pool (Pool.appendTo trace.blocks trace.length samples)
  return { trace with blocks, length := trace.length + samples.length }

/-- Add a part of a list at the end. -/
def extend (trace : StoredTrace) (samples : List Int32) (offset length : Nat) :
    Stored StoredTrace := do
  trace.append (← Stored.lift (Trace.part? samples offset length))

/-- Read the samples of a run of indices. -/
def read (trace : StoredTrace) (run : IndexRun) : Stored (List Int32) :=
  Stored.onPool trace.pool (Pool.readFrom trace.blocks run.first run.count)

/-- Read all samples. -/
def samples (trace : StoredTrace) : Stored (List Int32) := trace.read ⟨0, trace.length⟩

/-- Read so many samples from an index on. -/
def slice (trace : StoredTrace) (index count : Nat) : Stored (List Int32) := do
  trace.read (← Stored.lift (trace.extent.run index count))

/-- Read so many samples from the first one at or after a time on. -/
def sliceFrom (trace : StoredTrace) (time : Int) (count : Nat) : Stored (List Int32) := do
  trace.read (← Stored.lift (trace.extent.runFrom time count))

/-- Read the samples in a window of time that the trace covers. -/
def sliceBetween (trace : StoredTrace) (first last : Int) : Stored (List Int32) := do
  trace.read (← Stored.lift (trace.extent.runBetween first last))

/-- Remove all samples and release their blocks. -/
def clear (trace : StoredTrace) : Stored StoredTrace := do
  Stored.onPool trace.pool (Pool.releaseAll trace.blocks)
  return { trace with blocks := [], length := 0 }

/-- Keep only a run of the samples. The samples to keep are read before the blocks are released, and
stored again in the blocks that are then free. -/
def keep (trace : StoredTrace) (kept : IndexRun) : Stored StoredTrace := do
  if kept.count = 0 then trace.clear
  else if kept.count = trace.length then return trace
  else
    let samples ← trace.read kept
    let cleared ← trace.clear
    (cleared.setStart (trace.extent.keep kept).start).append samples

/-- Narrow the trace to the samples in a window of time. -/
def crop (trace : StoredTrace) (first last : Int) : Stored StoredTrace := do
  trace.keep (← Stored.lift (trace.extent.runWithin first last))

/-- Remove the samples before a time. -/
def dropBefore (trace : StoredTrace) (first : Int) : Stored StoredTrace :=
  trace.crop first trace.stop

/-- Remove the samples after a time. -/
def dropAfter (trace : StoredTrace) (last : Int) : Stored StoredTrace := trace.crop trace.start last

/-- The outcome of joining a source to a target. -/
structure Joined where
  /-- What is left of the source, which has no samples any more. -/
  source : StoredTrace
  target : StoredTrace
deriving DecidableEq

/-- Move the samples of a later trace, without so many at its start, to the end of an earlier one.
The blocks of the later one are released first, so that the earlier one can reuse them. -/
def moveOnto (later earlier : StoredTrace) (covered : Nat) :
    Stored (StoredTrace × StoredTrace) := do
  let samples ← later.read ⟨covered, later.length - covered⟩
  let cleared ← later.clear
  let longer ← earlier.append samples
  return (cleared, longer)

/-- Join two traces as planned. -/
def applyPlan (source target : StoredTrace) : JoinPlan → Stored Joined
  | .keepTarget => return ⟨← source.clear, target⟩
  | .exchange => return ⟨target, source⟩
  | .sourceAfter covered => do
      let (cleared, longer) ← source.moveOnto target covered
      return ⟨cleared, longer⟩
  | .sourceBefore covered => do
      let (cleared, longer) ← target.moveOnto source covered
      return ⟨cleared, longer⟩

/-- Join a source to a target. Where both have samples those of the earlier one are kept. -/
def joinTo (source target : StoredTrace) (tolerance : Tolerance) : Stored Joined := do
  source.applyPlan target (← Stored.lift (source.extent.joinPlan target.extent tolerance))

/-- Whether a trace starts no later than another one. -/
def startsBy (first second : StoredTrace) : Bool := first.start ≤ second.start

/-- Add traces in the order of their starts to a spliced one. Where they cannot be joined, the
samples after the last spliced one follow it directly. If that fails, all of them are cleared, the
one that could not be added first and the spliced one last. -/
def spliceOnto (spliced : StoredTrace) :
    List StoredTrace → Stored (Except TraceError StoredTrace)
  | [] => return .ok spliced
  | next :: later =>
      match next.extent.joinPlan spliced.extent Tolerance.standard with
      | .ok plan => do
          let joined ← next.applyPlan spliced plan
          joined.target.spliceOnto later
      | .error error =>
          if Trace.isDisjointness error then do
            let rest ←
              if next.start ≤ spliced.stop then next.dropBefore (spliced.stop + 1) else pure next
            let (_, longer) ← rest.moveOnto spliced 0
            longer.spliceOnto later
          else do
            (next :: later ++ [spliced]).forM fun trace => discard trace.clear
            return .error error

/-- Combine traces into one, in the order of their starts and disregarding gaps. There is none
without samples. The traces are used up even if they cannot be combined. -/
def splice (traces : List StoredTrace) : Stored (Except TraceError (Option StoredTrace)) :=
  match (traces.filter fun trace => trace.length ≠ 0).mergeSort startsBy with
  | [] => return .ok none
  | first :: later => do return (← first.spliceOnto later).map some

/-- The digest of the start, the rate and the samples, which are taken block by block. -/
def digest (trace : StoredTrace) : Stored String := do
  let samples ← Stored.onPool trace.pool (Pool.readBlocks trace.blocks trace.length)
  return Md5.text (Trace.digestBytes trace.start trace.rate samples)

end StoredTrace

end Waveform
