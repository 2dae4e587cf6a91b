import Waveform.Proofs.Workbench.Scripts

/-!
# Ownership of blocks

A script on stored traces keeps the books of every pool: each block is either free, once, or held by
one trace, once. No command meets a pool error, no block is lost, and every block is free again when
all traces are dropped.
-/

namespace Waveform

/-! ## The books of a pool -/

/-- Whether the books of a pool are right if some blocks are held: these are checked out, each once,
and the blocks on the free list are the others, each once. -/
structure Pool.Accounts (pool : Pool) (held : List Nat) : Prop where
  heldOnce : held.Nodup
  checkedOut : ∀ block ∈ held, ∃ samples, pool.contents block = .ok samples
  freeOnce : pool.free.Nodup
  free_iff : ∀ block, block ∈ pool.free ↔ block < pool.allocated ∧ block ∉ held
  balance : pool.free.length + held.length = pool.allocated

/-- A pool that lends some blocks has right books if these are held. -/
theorem Pool.Lends.accounts {pool : Pool} {held : List Nat} (lends : pool.Lends held) :
    pool.Accounts held := by
  have nodup := List.nodup_append.mp lends.nodup
  constructor
  case heldOnce => exact nodup.2.1
  case checkedOut =>
    intro block member
    obtain ⟨samples, _, isContents, _⟩ := lends.contents member
    exact ⟨samples, isContents⟩
  case freeOnce => exact nodup.1
  case free_iff =>
    intro block
    have isAny : block ∈ pool.free ∨ block ∈ held ↔ block < pool.allocated := by
      rw [← List.mem_append, lends.partition.mem_iff, List.mem_range]
    constructor
    · intro isFree
      exact ⟨isAny.mp (.inl isFree), fun isHeld => nodup.2.2 block isFree block isHeld rfl⟩
    · intro others
      exact (isAny.mpr others.1).resolve_right others.2
  case balance =>
    rw [← List.length_append, lends.partition.length_eq, List.length_range]

/-- Blocks that store values without one too many are as many as the values fill, rounded up. -/
theorem Pool.Stores.length_blocks {pool : Pool} {blocks : List Nat} {values : List Int32}
    (stores : pool.Stores blocks values) :
    blocks.length = (values.length + pool.blockSize - 1) / pool.blockSize := by
  have positive := pool.blockSize_pos
  have enough := stores.enough
  have needed := stores.needed
  symm
  apply Nat.div_eq_of_lt_le
  · omega
  · rw [Nat.succ_mul]
    omega

/-! ## Errors of plain traces -/

/-- Whether an outcome blames no pool: it is a result as expected, or an error of another kind. -/
def BlamesNoPool {α : Type} (outcome : Except StorageError α) (expected : α → Prop) : Prop :=
  match outcome with
  | .ok result => expected result
  | .error error => ∀ reason, error ≠ .pool reason

theorem BlamesNoPool.bind {α β : Type} {outcome : Except StorageError α} {expected : α → Prop}
    {next : α → Except StorageError β} {finallyExpected : β → Prop}
    (blames : BlamesNoPool outcome expected)
    (later : ∀ result, expected result → BlamesNoPool (next result) finallyExpected) :
    BlamesNoPool (outcome >>= next) finallyExpected := by
  cases outcome with
  | ok result => exact later result blames
  | error error => exact blames

/-- What fails with an error of another kind blames no pool. -/
theorem blamesNoPool_mapError {ε α : Type} {kind : ε → StorageError}
    (isOther : ∀ error reason, kind error ≠ .pool reason) (outcome : Except ε α) :
    BlamesNoPool (outcome.mapError kind) fun _ => True := by
  cases outcome with
  | ok result => exact True.intro
  | error error => exact isOther error

theorem trace_ne_pool (error : TraceError) (reason : PoolError) :
    StorageError.trace error ≠ .pool reason := StorageError.noConfusion

namespace PlainWorkbench

/-- Whether the answer of an effect blames no pool. -/
def Effect.BlamesNoPool (effect : Effect) : Prop := ∀ reason, effect.1 ≠ .error (.pool reason)

theorem blamesNoPool_ok (reply : Reply) (traces : Named Trace) :
    Effect.BlamesNoPool (.ok reply, traces) := by
  intro reason isPool
  cases isPool

theorem blamesNoPool_error (error : TraceError) (traces : Named Trace) :
    Effect.BlamesNoPool (.error (.trace error), traces) :=
  fun reason isPool => trace_ne_pool error reason (Except.error.inj isPool)

theorem find_blamesNoPool (traces : Named Trace) (name : String) :
    BlamesNoPool (find traces name) fun _ => True := by
  unfold find
  cases traces.find? name with
  | none =>
      intro reason isPool
      cases isPool
  | some trace => exact True.intro

theorem ask_blamesNoPool (traces : Named Trace) (name : String)
    (question : Trace → Except TraceError Reply) :
    BlamesNoPool (ask traces name question) Effect.BlamesNoPool := by
  apply (find_blamesNoPool traces name).bind
  intro trace _
  apply (blamesNoPool_mapError trace_ne_pool (question trace)).bind
  intro reply _
  exact blamesNoPool_ok reply traces

theorem change_blamesNoPool (traces : Named Trace) (name : String)
    (operation : Trace → Except TraceError Trace) :
    BlamesNoPool (change traces name operation) Effect.BlamesNoPool := by
  apply (find_blamesNoPool traces name).bind
  intro trace _
  apply (blamesNoPool_mapError trace_ne_pool (operation trace)).bind
  intro new _
  exact blamesNoPool_ok .done _

/-- A command on plain traces blames no pool. -/
theorem perform_blamesNoPool (traces : Named Trace) (command : Command) :
    BlamesNoPool (perform traces command) Effect.BlamesNoPool := by
  cases command with
  | create name pool origin =>
      cases origin with
      | none => exact blamesNoPool_ok .done _
      | some origin =>
          apply (blamesNoPool_mapError trace_ne_pool (Trace.ofRate origin.1 origin.2)).bind
          intro trace _
          exact blamesNoPool_ok .done _
  | drop name => exact blamesNoPool_ok .done _
  | join source target tolerance =>
      apply (find_blamesNoPool traces source).bind
      intro sourceTrace _
      apply (find_blamesNoPool (traces.remove source) target).bind
      intro targetTrace _
      apply (blamesNoPool_mapError trace_ne_pool (sourceTrace.joinTo targetTrace tolerance)).bind
      intro joined _
      exact blamesNoPool_ok .done _
  | compare first second =>
      apply (find_blamesNoPool traces first).bind
      intro firstTrace _
      apply (find_blamesNoPool traces second).bind
      intro secondTrace _
      exact blamesNoPool_ok _ traces
  | splice name sources =>
      have isOther (name : String) (reason : PoolError) :
          StorageError.noTrace name ≠ .pool reason := StorageError.noConfusion
      apply (blamesNoPool_mapError isOther (traces.takeAll sources)).bind
      intro taken _
      dsimp only
      split
      case h_1 error isError => exact blamesNoPool_error error taken.2
      case h_2 isNone => exact blamesNoPool_ok (.flag false) taken.2
      case h_3 spliced isSome => exact blamesNoPool_ok (.flag true) _
  | setStart | setRate | append | extend | crop | dropBefore | dropAfter | clear =>
      exact change_blamesNoPool traces _ _
  | slice | sliceFrom | sliceBetween | samples | digest | covers | describe =>
      exact ask_blamesNoPool traces _ _

theorem step_ne_poolError (bench : PlainWorkbench) (command : Command) (reason : PoolError) :
    (bench.step command).1 ≠ .error (.pool reason) := by
  have blames := perform_blamesNoPool bench.traces command
  simp only [step]
  cases carriedOut : perform bench.traces command with
  | error error =>
      rw [carriedOut] at blames
      intro isReply
      exact blames reason (Except.error.inj isReply)
  | ok effect =>
      rw [carriedOut] at blames
      exact blames reason

theorem run_ne_poolError (bench : PlainWorkbench) (script : List Command) (reason : PoolError) :
    .error (.pool reason) ∉ (bench.run script).1 := by
  induction script generalizing bench with
  | nil => exact List.not_mem_nil
  | cons command later ih =>
      intro member
      cases List.mem_cons.mp member with
      | inl isFirst => exact bench.step_ne_poolError command reason isFirst.symm
      | inr isLater => exact ih (bench.step command).2 isLater

/-- Dropping traces takes them off and leaves the others. -/
theorem traces_run_drop (bench : PlainWorkbench) (names : List String) :
    (bench.run (names.map .drop)).2.traces =
      bench.traces.filter fun entry => entry.1 ∉ names := by
  induction names generalizing bench with
  | nil => simp [run]
  | cons name names ih =>
      have isFirst : (bench.step (.drop name)).2 = ⟨bench.traces.remove name⟩ := rfl
      simp only [List.map_cons, run]
      rw [ih, isFirst]
      simp only [Named.remove, List.filter_filter]
      congr 1
      funext entry
      simp [Bool.and_comm]

end PlainWorkbench

/-! ## Scripts -/

namespace StoredWorkbench

/-- The blocks of a pool that the traces of a workbench hold. -/
def heldIn (bench : StoredWorkbench) (number : Nat) : List Nat :=
  bench.traces.flatMap fun entry => if entry.2.pool = number then entry.2.blocks else []

/-- The commands that drop all traces of a workbench. -/
def dropAll (bench : StoredWorkbench) : List Command :=
  bench.traces.map fun entry => .drop entry.1

section

variable {blockSizes : List Nat} {stored : StoredWorkbench} {plain : PlainWorkbench}

/-- The books of the pools of a workbench that mirrors a plain one are right. -/
theorem accounts (mirrors : Mirrors blockSizes stored.traces plain.traces stored.pools)
    {number : Nat} {pool : Pool} (isPool : stored.pools[number]? = some pool) :
    pool.Accounts (stored.heldIn number) := by
  obtain ⟨entries, _, isStored, _, holds⟩ := mirrors
  have isHeld : stored.heldIn number = blocksIn number (entries.map Prod.snd) := by
    simp only [heldIn, blocksIn]
    rw [isStored, Named.mapValues, List.flatMap_map, List.flatMap_map]
  rw [isHeld]
  exact (holds.lends number pool isPool).accounts

/-- Every trace of a workbench that mirrors a plain one has as many blocks as its samples fill,
rounded up. -/
theorem length_blocks (mirrors : Mirrors blockSizes stored.traces plain.traces stored.pools)
    {name : String} {trace : StoredTrace} (found : stored.traces.find? name = some trace) :
    ∃ pool, stored.pools[trace.pool]? = some pool ∧
      trace.blocks.length = (trace.length + pool.blockSize - 1) / pool.blockSize := by
  obtain ⟨entries, distinct, isStored, _, holds⟩ := mirrors
  rw [isStored, Named.find?_mapValues] at found
  obtain ⟨entry, isEntry, rfl⟩ := Option.map_eq_some_iff.mp found
  have held := holds_of_find? distinct holds isEntry
  obtain ⟨pool, isPool, _, stores⟩ := held.exists_pool
  refine ⟨pool, isPool, ?_⟩
  rw [held.describes_head.length]
  exact stores.length_blocks

/-- A workbench that mirrors a plain one has no traces, and all of its blocks are free, once all of
its traces are dropped. -/
theorem run_dropAll (mirrors : Mirrors blockSizes stored.traces plain.traces stored.pools) :
    (stored.run stored.dropAll).2.traces = [] ∧
      ∀ pool ∈ (stored.run stored.dropAll).2.pools, pool.free.length = pool.allocated := by
  have fits : ∀ command ∈ stored.dropAll, command.FitsPools blockSizes.length := by
    intro command member
    obtain ⟨entry, _, rfl⟩ := List.mem_map.mp member
    exact True.intro
  have final := (run_mirrors mirrors stored.dropAll fits).2
  have sameNames : stored.traces.map Prod.fst = plain.traces.map Prod.fst := by
    obtain ⟨entries, _, isStored, isPlain, _⟩ := mirrors
    rw [isStored, isPlain]
    simp [Named.mapValues]
  have noPlain : (plain.run stored.dropAll).2.traces = [] := by
    have areDrops : stored.dropAll = (plain.traces.map Prod.fst).map .drop := by
      rw [← sameNames, List.map_map]
      rfl
    rw [areDrops, plain.traces_run_drop]
    apply List.filter_eq_nil_iff.mpr
    intro entry member
    simpa using ⟨entry.2, member⟩
  have noTraces : (stored.run stored.dropAll).2.traces = [] := by
    obtain ⟨entries, _, isStored, isPlain, _⟩ := final
    rw [noPlain] at isPlain
    rw [isStored, List.map_eq_nil_iff.mp isPlain.symm]
    rfl
  refine ⟨noTraces, ?_⟩
  intro pool member
  obtain ⟨number, isPool⟩ := List.mem_iff_getElem?.mp member
  have balance := (accounts final isPool).balance
  rw [heldIn, noTraces] at balance
  simpa using balance

end

/-- A script on traces in pools that lend no blocks, such as new ones, keeps the books of the pools:
after every step each block of a pool is either free, once, or held by one trace, once and checked
out, and every trace holds as many blocks as its samples fill, rounded up. No command, whether it
changes, reads or releases blocks, meets a pool error; and when all traces are dropped at any time,
every block is free again. -/
theorem run_accounts {pools : List Pool} (idle : ∀ pool ∈ pools, pool.Lends [])
    (script : List Command) (fits : ∀ command ∈ script, command.FitsPools pools.length) :
    (∀ reason, .error (.pool reason) ∉ (run ⟨pools, []⟩ script).1) ∧
      ∀ done : Nat,
        let bench := (run ⟨pools, []⟩ (script.take done)).2
        (∀ (number : Nat) (pool : Pool), bench.pools[number]? = some pool →
          pool.Accounts (bench.heldIn number)) ∧
        (∀ name trace, bench.traces.find? name = some trace →
          ∃ pool, bench.pools[trace.pool]? = some pool ∧
            trace.blocks.length = (trace.length + pool.blockSize - 1) / pool.blockSize) ∧
        (bench.run bench.dropAll).2.traces = [] ∧
        ∀ pool ∈ (bench.run bench.dropAll).2.pools, pool.free.length = pool.allocated := by
  constructor
  case left =>
    intro reason
    rw [(run_mirrors_nil idle script fits).1]
    exact PlainWorkbench.run_ne_poolError ⟨[]⟩ script reason
  case right =>
    intro done bench
    have partFits : ∀ command ∈ script.take done, command.FitsPools pools.length :=
      fun command member => fits command (List.mem_of_mem_take member)
    have mirrors := (run_mirrors_nil idle (script.take done) partFits).2
    exact ⟨fun _ _ isPool => accounts mirrors isPool, fun _ _ found => length_blocks mirrors found,
      run_dropAll mirrors⟩

/-- Traces are joined across pools, spliced and replaced, and two commands fail. -/
def recyclingScript : List Command :=
  [.create "first" 0 (some (0, 20)), .append "first" [1, 2, 3],
    .create "second" 1 (some (150000, 20)), .append "second" [4, 5, 6, 7],
    .join "first" "second" Tolerance.standard, .extend "first" [8] 0 2, .append "first" [9],
    .splice "both" ["second", "first"], .samples "second", .create "both" 0 none,
    .append "both" [10, 11]]

theorem run_accounts_recycled :
    (∀ pool ∈ newPools, pool.Lends []) ∧
      (∀ command ∈ recyclingScript, command.FitsPools newPools.length) ∧
      (∀ reason, .error (.pool reason) ∉ (run ⟨newPools, []⟩ recyclingScript).1) ∧
      let bench := (run ⟨newPools, []⟩ recyclingScript).2
      ∀ pool ∈ (bench.run bench.dropAll).2.pools, pool.free.length = pool.allocated := by
  have idle : ∀ pool ∈ newPools, pool.Lends [] := fun _ => Pool.lends_of_mem_new
  have fits : ∀ command ∈ recyclingScript, command.FitsPools newPools.length := by
    simp [recyclingScript, Command.FitsPools, newPools, Pool.ofBlockSize?]
  obtain ⟨noPoolError, steps⟩ := run_accounts idle recyclingScript fits
  have final := (steps recyclingScript.length).2.2.2
  rw [List.take_length] at final
  exact ⟨idle, fits, noPoolError, final⟩

end StoredWorkbench

end Waveform
