import Waveform.Proofs.Storage.Blocks
import Waveform.Proofs.Trace.Windows

/-!
# Traces held by pools

Pools hold traces if each trace has blocks of its own in one of them, which store its samples. An
operation on stored traces simulates the one on plain traces: it fails with the same error, or it
leaves pools that hold what the plain operation leaves.
-/

namespace Waveform

/-- Whether a stored trace tells of a plain one all but its samples. -/
structure StoredTrace.Describes (stored : StoredTrace) (plain : Trace) : Prop where
  start : stored.start = plain.start
  rate : stored.rate = plain.rate
  interval : stored.interval = plain.interval
  length : stored.length = plain.samples.length
  nonneg : 0 ≤ plain.interval

theorem StoredTrace.Describes.extent_eq {stored : StoredTrace} {plain : Trace}
    (describes : stored.Describes plain) : stored.extent = plain.extent := by
  simp only [StoredTrace.extent, Trace.extent]
  rw [describes.start, describes.interval, describes.length]

theorem StoredTrace.Describes.stop_eq {stored : StoredTrace} {plain : Trace}
    (describes : stored.Describes plain) : stored.stop = plain.stop :=
  congrArg Extent.stop describes.extent_eq

/-- The blocks of some traces that are in one pool. -/
def blocksIn (number : Nat) (entries : List (StoredTrace × Trace)) : List Nat :=
  entries.flatMap fun entry => if entry.1.pool = number then entry.1.blocks else []

/-- Whether pools of some block sizes hold some traces, and lend no other blocks. -/
structure Holds (blockSizes : List Nat) (pools : List Pool) (entries : List (StoredTrace × Trace)) :
    Prop where
  sizes : pools.map Pool.blockSize = blockSizes
  lends : ∀ (number : Nat) pool, pools[number]? = some pool → pool.Lends (blocksIn number entries)
  describes : ∀ entry ∈ entries, entry.1.Describes entry.2
  stores : ∀ entry ∈ entries, ∃ pool, pools[entry.1.pool]? = some pool ∧
    pool.Stores entry.1.blocks entry.2.samples

section

variable {blockSizes : List Nat} {pools : List Pool} {entries rest : List (StoredTrace × Trace)}
  {stored : StoredTrace} {plain : Trace}

theorem blocksIn_cons (number : Nat) (entry : StoredTrace × Trace)
    (entries : List (StoredTrace × Trace)) :
    blocksIn number (entry :: entries) =
      (if entry.1.pool = number then entry.1.blocks else []) ++ blocksIn number entries :=
  List.flatMap_cons

theorem Holds.describes_head (holds : Holds blockSizes pools ((stored, plain) :: rest)) :
    stored.Describes plain :=
  holds.describes (stored, plain) List.mem_cons_self

/-- The pool of a trace stores its samples in blocks that it lends beside those of the others. -/
theorem Holds.exists_pool (holds : Holds blockSizes pools ((stored, plain) :: rest)) :
    ∃ pool, pools[stored.pool]? = some pool ∧
      pool.Lends (stored.blocks ++ blocksIn stored.pool rest) ∧
      pool.Stores stored.blocks plain.samples := by
  obtain ⟨pool, isPool, stores⟩ := holds.stores (stored, plain) List.mem_cons_self
  have lends := holds.lends stored.pool pool isPool
  rw [blocksIn_cons, if_pos rfl] at lends
  exact ⟨pool, isPool, lends, stores⟩

theorem Holds.perm (holds : Holds blockSizes pools entries)
    {reordered : List (StoredTrace × Trace)} (same : entries.Perm reordered) :
    Holds blockSizes pools reordered where
  sizes := holds.sizes
  lends := fun number pool isPool => (holds.lends number pool isPool).perm (same.flatMap_right _)
  describes := fun entry member => holds.describes entry (same.mem_iff.mpr member)
  stores := fun entry member => holds.stores entry (same.mem_iff.mpr member)

/-- Pools that lend no blocks hold no traces. -/
theorem holds_nil {pools : List Pool} (idle : ∀ pool ∈ pools, pool.Lends []) :
    Holds (pools.map Pool.blockSize) pools [] where
  sizes := rfl
  lends := fun _ pool isPool => idle pool (List.mem_of_getElem? isPool)
  describes := by simp
  stores := by simp

/-- A pool may change in the blocks of one trace and in those that it does not lend. -/
theorem Holds.setPool (holds : Holds blockSizes pools ((stored, plain) :: rest))
    {pool changed : Pool}
    (isPool : pools[stored.pool]? = some pool) {newStored : StoredTrace} {newPlain : Trace}
    (describes : newStored.Describes newPlain) (samePool : newStored.pool = stored.pool)
    (lends : changed.Lends (newStored.blocks ++ blocksIn stored.pool rest))
    (stores : changed.Stores newStored.blocks newPlain.samples)
    (keeps : changed.Keeps pool (blocksIn stored.pool rest)) :
    Holds blockSizes (pools.set stored.pool changed) ((newStored, newPlain) :: rest) := by
  obtain ⟨inside, isPool⟩ := List.getElem?_eq_some_iff.mp isPool
  have isChanged : (pools.set stored.pool changed)[stored.pool]? = some changed :=
    List.getElem?_set_self inside
  constructor
  case sizes =>
    rw [List.map_set, keeps.blockSize, ← isPool, ← holds.sizes]
    rw [← List.getElem_map Pool.blockSize (h := by simpa using inside)]
    exact List.set_getElem_self _
  case lends =>
    intro number other isOther
    rw [blocksIn_cons, samePool]
    by_cases same : stored.pool = number
    · subst same
      rw [isChanged] at isOther
      cases isOther
      rw [if_pos rfl]
      exact lends
    · rw [List.getElem?_set_ne same] at isOther
      have otherLends := holds.lends number other isOther
      rw [blocksIn_cons, if_neg same] at otherLends
      rw [if_neg same]
      exact otherLends
  case describes =>
    intro entry member
    rcases List.mem_cons.mp member with rfl | isRest
    · exact describes
    · exact holds.describes entry (List.mem_cons_of_mem _ isRest)
  case stores =>
    intro entry member
    rcases List.mem_cons.mp member with rfl | isRest
    · exact ⟨changed, by rw [samePool]; exact isChanged, stores⟩
    · obtain ⟨other, isOther, otherStores⟩ := holds.stores entry (List.mem_cons_of_mem _ isRest)
      by_cases same : stored.pool = entry.1.pool
      · rw [← same, List.getElem?_eq_getElem inside, isPool] at isOther
        cases isOther
        refine ⟨changed, by rw [← same]; exact isChanged, otherStores.keep (keeps.mono ?_)⟩
        intro block isBlock
        refine List.mem_flatMap.mpr ⟨entry, isRest, ?_⟩
        rw [if_pos same.symm]
        exact isBlock
      · exact ⟨other, by rw [List.getElem?_set_ne same]; exact isOther, otherStores⟩

/-- A trace without samples has no blocks, so that nothing is lost with it. -/
theorem Holds.dropEmpty (holds : Holds blockSizes pools ((stored, plain) :: rest))
    (isEmpty : plain.samples = []) : Holds blockSizes pools rest := by
  obtain ⟨pool, _, stores⟩ := holds.stores (stored, plain) List.mem_cons_self
  have noBlocks : stored.blocks = [] := by
    rw [isEmpty] at stores
    exact stores.blocks_eq_nil
  constructor
  case sizes => exact holds.sizes
  case lends =>
    intro number pool isPool
    have lends := holds.lends number pool isPool
    rw [blocksIn_cons, noBlocks, ite_self, List.nil_append] at lends
    exact lends
  case describes => exact fun entry member => holds.describes entry (List.mem_cons_of_mem _ member)
  case stores => exact fun entry member => holds.stores entry (List.mem_cons_of_mem _ member)

/-- A trace without samples needs no blocks. -/
theorem Holds.addEmpty (holds : Holds blockSizes pools rest) (inside : stored.pool < pools.length)
    (noBlocks : stored.blocks = []) (isEmpty : plain.samples = [])
    (describes : stored.Describes plain) : Holds blockSizes pools ((stored, plain) :: rest) := by
  constructor
  case sizes => exact holds.sizes
  case lends =>
    intro number pool isPool
    rw [blocksIn_cons, noBlocks, ite_self, List.nil_append]
    exact holds.lends number pool isPool
  case describes =>
    intro entry member
    rcases List.mem_cons.mp member with rfl | isRest
    · exact describes
    · exact holds.describes entry isRest
  case stores =>
    intro entry member
    rcases List.mem_cons.mp member with rfl | isRest
    · refine ⟨pools[stored.pool], List.getElem?_eq_getElem _, ?_⟩
      rw [noBlocks, isEmpty]
      exact Pool.stores_nil _
    · exact holds.stores entry isRest

/-- What a trace tells without its samples may change without the pools. -/
theorem Holds.retell (holds : Holds blockSizes pools ((stored, plain) :: rest))
    {newStored : StoredTrace} {newPlain : Trace} (samePool : newStored.pool = stored.pool)
    (sameBlocks : newStored.blocks = stored.blocks) (sameSamples : newPlain.samples = plain.samples)
    (describes : newStored.Describes newPlain) :
    Holds blockSizes pools ((newStored, newPlain) :: rest) := by
  constructor
  case sizes => exact holds.sizes
  case lends =>
    intro number pool isPool
    have lends := holds.lends number pool isPool
    rw [blocksIn_cons] at lends ⊢
    rw [samePool, sameBlocks]
    exact lends
  case describes =>
    intro entry member
    rcases List.mem_cons.mp member with rfl | isRest
    · exact describes
    · exact holds.describes entry (List.mem_cons_of_mem _ isRest)
  case stores =>
    intro entry member
    rcases List.mem_cons.mp member with rfl | isRest
    · rw [samePool, sameBlocks, sameSamples]
      exact holds.stores (stored, plain) List.mem_cons_self
    · exact holds.stores entry (List.mem_cons_of_mem _ isRest)

end

/-! ## Simulation -/

/-- Whether an operation comes to what a plain one comes to: it fails alike and has changed nothing
before, or its result and the pools afterwards are related to the plain result. -/
def Simulates {α β : Type} (operation : Stored α) (pools : List Pool)
    (outcome : Except StorageError β) (related : α → β → List Pool → Prop) : Prop :=
  match outcome with
  | .ok value => ∃ result changed, operation pools = (.ok result, changed) ∧
      related result value changed
  | .error error => operation pools = (.error error, pools)

section

variable {α β γ δ : Type} {operation : Stored α} {pools : List Pool}
  {outcome : Except StorageError β} {related : α → β → List Pool → Prop}
  {nextRelated : γ → δ → List Pool → Prop}

/-- Using a pool changes that pool. -/
theorem Stored.onPool_of_ok {number : Nat} {pool changed : Pool} {use : PoolUse α} {result : α}
    (isPool : pools[number]? = some pool) (isResult : use pool = (.ok result, changed)) :
    Stored.onPool number use pools = (.ok result, pools.set number changed) := by
  rw [Stored.onPool, Process.get_bind, isPool]
  change (set (pools.set number (use pool).2) >>= fun _ =>
    liftExcept ((use pool).1.mapError StorageError.pool) : Stored α) pools = _
  rw [isResult]
  rfl

theorem simulates_pure {result : α} {value : β} (isRelated : related result value pools) :
    Simulates (pure result) pools (.ok value) related :=
  ⟨result, pools, rfl, isRelated⟩

theorem simulates_of_ok {result : α} {changed : List Pool} {value : β}
    (isResult : operation pools = (.ok result, changed))
    (isRelated : related result value changed) :
    Simulates operation pools (.ok value) related :=
  ⟨result, changed, isResult, isRelated⟩

/-- Operations one after the other simulate plain ones one after the other. The first one leaves the
pools as they are, so that nothing has changed where the second one fails. -/
theorem Simulates.bind (simulates : Simulates operation pools outcome related)
    (keeps : ∀ result value changed, related result value changed → changed = pools)
    {next : α → Stored γ} {plainNext : β → Except StorageError δ}
    (later : ∀ result value, related result value pools →
      Simulates (next result) pools (plainNext value) nextRelated) :
    Simulates (operation >>= next) pools (outcome >>= plainNext) nextRelated := by
  cases outcome with
  | ok value =>
      obtain ⟨result, changed, isResult, isRelated⟩ := simulates
      obtain rfl := keeps result value changed isRelated
      have step := later result value isRelated
      simp only [Simulates] at step ⊢
      rw [Process.bind_of_ok isResult]
      exact step
  | error error =>
      change operation pools = (.error error, pools) at simulates
      exact Process.bind_of_error simulates next

/-- What is returned for the result of an operation is no further step. -/
theorem Simulates.andReturn (simulates : Simulates operation pools outcome related)
    {answer : α → γ} {plainAnswer : β → δ}
    (later : ∀ result value changed, related result value changed →
      nextRelated (answer result) (plainAnswer value) changed) :
    Simulates (operation >>= fun result => pure (answer result)) pools
      (outcome >>= fun value => pure (plainAnswer value)) nextRelated := by
  cases outcome with
  | ok value =>
      obtain ⟨result, changed, isResult, isRelated⟩ := simulates
      refine ⟨answer result, changed, ?_, later result value changed isRelated⟩
      rw [Process.bind_of_ok isResult]
      rfl
  | error error =>
      change operation pools = (.error error, pools) at simulates
      exact Process.bind_of_error simulates _

end

end Waveform
