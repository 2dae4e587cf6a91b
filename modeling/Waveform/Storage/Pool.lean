import Waveform.Process

/-!
# Block pools

A pool keeps samples in blocks of one size. Blocks are checked out by number and released again; a
released block keeps its contents, and the one released last is the next to be checked out. Only a
block that is checked out can be read and written; a flag of every block tells whether it is, and a
list tells which blocks are free.
-/

namespace Waveform

/-- Why an access to a pool fails. -/
inductive PoolError where
  | notCheckedOut (block : Nat)
  | unknownBlock (block : Nat)
  | outOfBounds (offset length blockSize : Nat)
deriving DecidableEq

/-- The complaint about an access. -/
def PoolError.message : PoolError → String
  | .notCheckedOut block => s!"block {block} is not checked out"
  | .unknownBlock block => s!"block {block} does not belong to this pool"
  | .outOfBounds offset length blockSize =>
      s!"access of {length} samples at offset {offset} exceeds block size {blockSize}"

/-- Blocks of samples, numbered from zero. -/
structure Pool where
  blockSize : Nat
  blockSize_pos : 0 < blockSize
  /-- The contents of every block there is. -/
  blocks : Array (List Int32)
  /-- Of every block whether it is checked out. -/
  checkedOut : Array Bool
  size_checkedOut : checkedOut.size = blocks.size
  /-- The blocks that can be checked out again, the one released last first. -/
  free : List Nat
deriving DecidableEq

/-- A use of a pool, which may fail. -/
abbrev PoolUse (α : Type) := Process Pool PoolError α

namespace Pool

/-- How many samples a block has unless another number is asked for. -/
def standardBlockSize : Nat := 4096

/-- The complaint about blocks without room. -/
def emptyBlockMessage : String := "block size must be greater than 0"

/-- A pool without blocks. -/
def ofBlockSize? (blockSize : Nat) : Option Pool :=
  if positive : 0 < blockSize then some ⟨blockSize, positive, #[], #[], rfl, []⟩ else none

/-- How many blocks there are. -/
def allocated (pool : Pool) : Nat := pool.blocks.size

/-- Note of a block whether it is checked out. -/
def flag (pool : Pool) (block : Nat) (isOut : Bool) : Pool :=
  { pool with
    checkedOut := pool.checkedOut.setIfInBounds block isOut
    size_checkedOut := by rw [Array.size_setIfInBounds, pool.size_checkedOut] }

/-- Replace the contents of a block. -/
def overwrite (pool : Pool) (block : Nat) (samples : List Int32) : Pool :=
  { pool with
    blocks := pool.blocks.setIfInBounds block samples
    size_checkedOut := by rw [Array.size_setIfInBounds, pool.size_checkedOut] }

/-- Add a block that is filled with zeros and checked out. -/
def allocate (pool : Pool) : Pool :=
  { pool with
    blocks := pool.blocks.push (List.replicate pool.blockSize 0)
    checkedOut := pool.checkedOut.push true
    size_checkedOut := by rw [Array.size_push, Array.size_push, pool.size_checkedOut] }

/-- The contents of a block that is checked out. -/
def contents (pool : Pool) (block : Nat) : Except PoolError (List Int32) :=
  if inside : block < pool.checkedOut.size then
    if pool.checkedOut[block] then
      have isBlock : block < pool.blocks.size := pool.size_checkedOut ▸ inside
      .ok pool.blocks[block]
    else .error (.notCheckedOut block)
  else .error (.unknownBlock block)

/-- Fail if an access leaves a block. -/
def requireBounds (pool : Pool) (offset length : Nat) : Except PoolError Unit :=
  if offset + length ≤ pool.blockSize then .ok ()
  else .error (.outOfBounds offset length pool.blockSize)

/-- Check out a block: the one released last, or else a new one. -/
def checkout : PoolUse Nat := do
  let pool ← get
  match pool.free with
  | block :: rest =>
      set ({ pool with free := rest }.flag block true)
      return block
  | [] =>
      set pool.allocate
      return pool.blocks.size

/-- Release a block. -/
def release (block : Nat) : PoolUse Unit := do
  let pool ← get
  let _ ← liftExcept (pool.contents block)
  set { pool.flag block false with free := block :: pool.free }

/-- Overwrite the samples of a block from an offset on. -/
def write (block offset : Nat) (samples : List Int32) : PoolUse Unit := do
  let pool ← get
  liftExcept (pool.requireBounds offset samples.length)
  let old ← liftExcept (pool.contents block)
  set (pool.overwrite block (old.take offset ++ samples ++ old.drop (offset + samples.length)))

/-- So many samples of a block from an offset on. -/
def read (block offset length : Nat) : PoolUse (List Int32) := do
  let pool ← get
  liftExcept (pool.requireBounds offset length)
  let samples ← liftExcept (pool.contents block)
  return (samples.drop offset).take length

/-- The text of a pool. -/
def text (pool : Pool) : String :=
  "BlockPool \x7b block_size: " ++ toString pool.blockSize ++
    ", stats: PoolStats \x7b allocated: " ++ toString pool.allocated ++
    ", free: " ++ toString pool.free.length ++ " \x7d \x7d"

/-! ## What the operations come to -/

variable {pool : Pool} {block offset length : Nat} {old samples : List Int32} {error : PoolError}

theorem contents_of_unknown (isUnknown : pool.checkedOut[block]? = none) :
    pool.contents block = .error (.unknownBlock block) :=
  dif_neg (Nat.not_lt.mpr (Array.getElem?_eq_none_iff.mp isUnknown))

theorem contents_of_in (isIn : pool.checkedOut[block]? = some false) :
    pool.contents block = .error (.notCheckedOut block) := by
  obtain ⟨inside, isFlag⟩ := Array.getElem?_eq_some_iff.mp isIn
  rw [contents, dif_pos inside, isFlag]
  rfl

theorem contents_of_out (isOut : pool.checkedOut[block]? = some true) :
    ∃ samples, pool.blocks[block]? = some samples ∧ pool.contents block = .ok samples := by
  obtain ⟨inside, isFlag⟩ := Array.getElem?_eq_some_iff.mp isOut
  have isBlock : block < pool.blocks.size := pool.size_checkedOut ▸ inside
  refine ⟨pool.blocks[block], Array.getElem?_eq_getElem isBlock, ?_⟩
  rw [contents, dif_pos inside, isFlag]
  rfl

theorem checkout_of_free {rest : List Nat} (isFree : pool.free = block :: rest) :
    checkout pool = (.ok block, { pool with free := rest }.flag block true) := by
  change (match pool.free with | block :: rest => _ | [] => _ : PoolUse Nat) pool = _
  rw [isFree]
  rfl

theorem checkout_of_full (noneFree : pool.free = []) :
    checkout pool = (.ok pool.allocated, pool.allocate) := by
  change (match pool.free with | block :: rest => _ | [] => _ : PoolUse Nat) pool = _
  rw [noneFree]
  rfl

theorem release_of_ok (isContents : pool.contents block = .ok samples) :
    release block pool = (.ok (), { pool.flag block false with free := block :: pool.free }) := by
  change (liftExcept (pool.contents block) >>= _ : PoolUse Unit) pool = _
  rw [isContents]
  rfl

theorem release_of_error (isError : pool.contents block = .error error) :
    release block pool = (.error error, pool) := by
  change (liftExcept (pool.contents block) >>= _ : PoolUse Unit) pool = _
  rw [isError]
  rfl

theorem write_of_ok (inside : offset + samples.length ≤ pool.blockSize)
    (isContents : pool.contents block = .ok old) :
    write block offset samples pool = (.ok (), pool.overwrite block
      (old.take offset ++ samples ++ old.drop (offset + samples.length))) := by
  change (liftExcept (pool.requireBounds offset samples.length) >>= fun _ =>
    liftExcept (pool.contents block) >>= _ : PoolUse Unit) pool = _
  rw [requireBounds, if_pos inside, isContents]
  rfl

theorem write_of_error (inside : offset + samples.length ≤ pool.blockSize)
    (isError : pool.contents block = .error error) :
    write block offset samples pool = (.error error, pool) := by
  change (liftExcept (pool.requireBounds offset samples.length) >>= fun _ =>
    liftExcept (pool.contents block) >>= _ : PoolUse Unit) pool = _
  rw [requireBounds, if_pos inside, isError]
  rfl

theorem write_of_outside (outside : ¬ offset + samples.length ≤ pool.blockSize) :
    write block offset samples pool =
      (.error (.outOfBounds offset samples.length pool.blockSize), pool) := by
  change (liftExcept (pool.requireBounds offset samples.length) >>= _ : PoolUse Unit) pool = _
  rw [requireBounds, if_neg outside]
  rfl

theorem read_of_ok (inside : offset + length ≤ pool.blockSize)
    (isContents : pool.contents block = .ok samples) :
    read block offset length pool = (.ok ((samples.drop offset).take length), pool) := by
  change (liftExcept (pool.requireBounds offset length) >>= fun _ =>
    liftExcept (pool.contents block) >>= _ : PoolUse (List Int32)) pool = _
  rw [requireBounds, if_pos inside, isContents]
  rfl

theorem read_of_error (inside : offset + length ≤ pool.blockSize)
    (isError : pool.contents block = .error error) :
    read block offset length pool = (.error error, pool) := by
  change (liftExcept (pool.requireBounds offset length) >>= fun _ =>
    liftExcept (pool.contents block) >>= _ : PoolUse (List Int32)) pool = _
  rw [requireBounds, if_pos inside, isError]
  rfl

theorem read_of_outside (outside : ¬ offset + length ≤ pool.blockSize) :
    read block offset length pool =
      (.error (.outOfBounds offset length pool.blockSize), pool) := by
  change (liftExcept (pool.requireBounds offset length) >>= _ : PoolUse (List Int32)) pool = _
  rw [requireBounds, if_neg outside]
  rfl

end Pool

end Waveform
