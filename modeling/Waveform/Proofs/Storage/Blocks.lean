import Mathlib.Data.List.Basic
import Mathlib.Data.List.Nodup
import Mathlib.Data.List.Perm.Basic
import Waveform.Storage.StoredTrace

/-!
# Blocks of a pool

A pool lends blocks: those that are lent and those that are free are all blocks that there are, each
once. On a list of lent blocks that stores some values, every operation succeeds and does to the
values what its name says, and the other lent blocks keep their contents.
-/

namespace Waveform

namespace Pool

/-- Whether the blocks that are checked out are exactly some blocks, each once. -/
structure Lends (pool : Pool) (lent : List Nat) : Prop where
  sizes : ∀ (block : Nat) samples, pool.blocks[block]? = some samples →
    samples.length = pool.blockSize
  /-- Every block is free or lent, but not both, and none is so twice. -/
  partition : (pool.free ++ lent).Perm (List.range pool.allocated)
  flags : ∀ block : Nat, pool.checkedOut[block]? = some true ↔ block ∈ lent

/-- Whether a pool has changed at most outside of some blocks. -/
structure Keeps (changed pool : Pool) (kept : List Nat) : Prop where
  blockSize : changed.blockSize = pool.blockSize
  contents : ∀ block ∈ kept, changed.blocks[block]? = pool.blocks[block]?

/-- The samples in some blocks, one block after the other. -/
def samplesIn (pool : Pool) (blocks : List Nat) : List Int32 :=
  blocks.flatMap fun block => pool.blocks[block]?.getD []

/-- Whether some blocks, and no more of them than are needed, hold some values. -/
structure Stores (pool : Pool) (blocks : List Nat) (values : List Int32) : Prop where
  enough : values.length ≤ blocks.length * pool.blockSize
  needed : blocks.length * pool.blockSize < values.length + pool.blockSize
  values : (pool.samplesIn blocks).take values.length = values

/-! ## Lent blocks -/

section

variable {pool changed : Pool} {lent kept blocks : List Nat} {values : List Int32}

theorem lends_ofBlockSize? {blockSize : Nat} (isPool : ofBlockSize? blockSize = some pool) :
    pool.Lends [] := by
  simp only [ofBlockSize?] at isPool
  split at isPool
  next =>
    cases isPool
    exact ⟨by simp, List.Perm.refl [], by simp⟩
  next => cases isPool

/-- A pool whose blocks are all free lends none. -/
theorem lends_of_free (sizes : ∀ samples ∈ pool.blocks.toList, samples.length = pool.blockSize)
    (areFree : pool.free.Perm (List.range pool.allocated)) (areIn : true ∉ pool.checkedOut.toList) :
    pool.Lends [] where
  sizes := by
    intro block samples isBlock
    exact sizes samples (Array.mem_toList_iff.mpr (Array.mem_of_getElem? isBlock))
  partition := by rwa [List.append_nil]
  flags := by
    intro block
    refine iff_of_false ?_ List.not_mem_nil
    intro isOut
    exact areIn (Array.mem_toList_iff.mpr (Array.mem_of_getElem? isOut))

/-- New pools lend no blocks. -/
theorem lends_of_mem_new {blockSizes : List Nat}
    (member : pool ∈ blockSizes.filterMap ofBlockSize?) : pool.Lends [] := by
  obtain ⟨blockSize, _, isPool⟩ := List.mem_filterMap.mp member
  exact lends_ofBlockSize? isPool

theorem Lends.perm (lends : pool.Lends lent) {reordered : List Nat} (same : lent.Perm reordered) :
    pool.Lends reordered where
  sizes := lends.sizes
  partition := (same.symm.append_left pool.free).trans lends.partition
  flags := fun block => (lends.flags block).trans same.mem_iff

theorem Lends.nodup (lends : pool.Lends lent) : (pool.free ++ lent).Nodup :=
  lends.partition.nodup_iff.mpr List.nodup_range

theorem Lends.lt_allocated (lends : pool.Lends lent) {block : Nat} (member : block ∈ lent) :
    block < pool.allocated :=
  List.mem_range.mp (lends.partition.mem_iff.mp (List.mem_append_right pool.free member))

/-- A block is lent only once. -/
theorem Lends.notMem_of_last {before : List Nat} {block : Nat}
    (lends : pool.Lends (before ++ [block] ++ lent)) : block ∉ before ∧ block ∉ lent := by
  have nodup := (List.nodup_append.mp lends.nodup).2.1
  rw [List.append_assoc, List.singleton_append, List.nodup_middle] at nodup
  simpa using (List.nodup_cons.mp nodup).1

/-- A lent block can be accessed. -/
theorem Lends.contents (lends : pool.Lends lent) {block : Nat} (member : block ∈ lent) :
    ∃ samples, pool.blocks[block]? = some samples ∧ pool.contents block = .ok samples ∧
      samples.length = pool.blockSize := by
  obtain ⟨samples, found, isContents⟩ := contents_of_out ((lends.flags block).mpr member)
  exact ⟨samples, found, isContents, lends.sizes block samples found⟩

theorem keeps_refl (pool : Pool) (kept : List Nat) : pool.Keeps pool kept := ⟨rfl, fun _ _ => rfl⟩

theorem Keeps.trans {between : Pool} (second : changed.Keeps between kept)
    (first : between.Keeps pool kept) : changed.Keeps pool kept where
  blockSize := second.blockSize.trans first.blockSize
  contents := fun block member =>
    (second.contents block member).trans (first.contents block member)

theorem Keeps.mono (keeps : changed.Keeps pool kept) {fewer : List Nat} (subset : fewer ⊆ kept) :
    changed.Keeps pool fewer where
  blockSize := keeps.blockSize
  contents := fun block member => keeps.contents block (subset member)

theorem Keeps.samplesIn_eq (keeps : changed.Keeps pool blocks) :
    changed.samplesIn blocks = pool.samplesIn blocks := by
  simp only [samplesIn]
  apply List.flatMap_congr
  intro block member
  rw [keeps.contents block member]

/-- What blocks store does not depend on other blocks. -/
theorem Stores.keep (stores : pool.Stores blocks values) (keeps : changed.Keeps pool blocks) :
    changed.Stores blocks values where
  enough := keeps.blockSize ▸ stores.enough
  needed := keeps.blockSize ▸ stores.needed
  values := keeps.samplesIn_eq ▸ stores.values

theorem stores_nil (pool : Pool) : pool.Stores [] [] :=
  ⟨by simp, by simpa using pool.blockSize_pos, by simp⟩

theorem Stores.blocks_eq_nil (stores : pool.Stores blocks []) : blocks = [] := by
  have needed := stores.needed
  cases blocks with
  | nil => rfl
  | cons block later =>
      rw [List.length_cons, Nat.add_mul, Nat.one_mul, List.length_nil] at needed
      omega

theorem samplesIn_append (first second : List Nat) :
    pool.samplesIn (first ++ second) = pool.samplesIn first ++ pool.samplesIn second :=
  List.flatMap_append

theorem samplesIn_singleton {block : Nat} {samples : List Int32}
    (found : pool.blocks[block]? = some samples) : pool.samplesIn [block] = samples := by
  simp [samplesIn, found]

/-- Lent blocks are full blocks. -/
theorem Lends.length_samplesIn (lends : pool.Lends lent) (subset : blocks ⊆ lent) :
    (pool.samplesIn blocks).length = blocks.length * pool.blockSize := by
  induction blocks with
  | nil => simp [samplesIn]
  | cons block later ih =>
      obtain ⟨samples, found, _, size⟩ := lends.contents (subset List.mem_cons_self)
      have laterSubset : later ⊆ lent := fun other member =>
        subset (List.mem_cons_of_mem block member)
      rw [show block :: later = [block] ++ later from rfl, samplesIn_append,
        samplesIn_singleton found, List.length_append, ih laterSubset, size, List.length_append,
        List.length_singleton, Nat.add_mul, Nat.one_mul]

/-- The samples from the start of a block on are its own and those of the blocks behind it. -/
theorem Lends.drop_samplesIn (lends : pool.Lends lent) (subset : blocks ⊆ lent) {place block : Nat}
    (isBlock : blocks[place]? = some block) {samples : List Int32}
    (found : pool.blocks[block]? = some samples) :
    (pool.samplesIn blocks).drop (place * pool.blockSize) =
      samples ++ pool.samplesIn (blocks.drop (place + 1)) := by
  obtain ⟨inside, isBlock⟩ := List.getElem?_eq_some_iff.mp isBlock
  have split : blocks = blocks.take place ++ [block] ++ blocks.drop (place + 1) := by
    rw [← isBlock, List.take_append_getElem inside, List.take_append_drop]
  have before : (pool.samplesIn (blocks.take place)).length = place * pool.blockSize := by
    rw [lends.length_samplesIn (List.Subset.trans (List.take_subset place blocks) subset),
      List.length_take,
      Nat.min_eq_left (Nat.le_of_lt inside)]
  have parts : pool.samplesIn blocks = pool.samplesIn (blocks.take place) ++
      (samples ++ pool.samplesIn (blocks.drop (place + 1))) := by
    rw [← samplesIn_singleton found, ← samplesIn_append, ← samplesIn_append, ← List.append_assoc,
      ← split]
  rw [parts, ← before, List.drop_left]

/-! ## Checking out, writing and releasing -/

/-- A block that is checked out was not lent before, and no other block changes. -/
theorem checkout_spec (lends : pool.Lends lent) :
    ∃ block changed, checkout pool = (.ok block, changed) ∧ changed.Lends (block :: lent) ∧
      changed.Keeps pool lent := by
  have partition := lends.partition
  cases isFree : pool.free with
  | cons block rest =>
      rw [isFree] at partition
      have inside : block < pool.checkedOut.size := by
        rw [pool.size_checkedOut]
        exact List.mem_range.mp (partition.mem_iff.mp List.mem_cons_self)
      refine ⟨block, _, checkout_of_free isFree, ?_, rfl, fun _ _ => rfl⟩
      constructor
      case sizes => exact lends.sizes
      case partition => exact List.perm_middle.trans partition
      case flags =>
        intro other
        rw [List.mem_cons, ← lends.flags]
        by_cases same : other = block
        · subst same
          simp [flag, Array.getElem?_setIfInBounds_self_of_lt inside]
        · simp [flag, Array.getElem?_setIfInBounds_ne (Ne.symm same), same]
  | nil =>
      rw [isFree] at partition
      refine ⟨pool.allocated, pool.allocate, checkout_of_full isFree, ?_, rfl, ?_⟩
      · constructor
        case sizes =>
          intro block samples found
          rw [allocate, Array.getElem?_push] at found
          split at found
          · cases found
            exact List.length_replicate
          · exact lends.sizes block samples found
        case partition =>
          dsimp only [allocate, allocated]
          rw [isFree, Array.size_push, List.range_succ]
          exact (List.perm_append_singleton _ _).symm.trans (partition.append_right _)
        case flags =>
          intro other
          rw [List.mem_cons, ← lends.flags, allocated, ← pool.size_checkedOut]
          dsimp only [allocate]
          rw [Array.getElem?_push]
          split
          next isNew => simp [isNew]
          next notNew => simp [notNew]
      · intro block member
        have inside : block < pool.blocks.size := lends.lt_allocated member
        dsimp only [allocate]
        rw [Array.getElem?_push, if_neg (Nat.ne_of_lt inside)]

/-- Writing to a lent block succeeds within its bounds and changes no other block. -/
theorem write_spec (lends : pool.Lends lent) {block : Nat} (member : block ∈ lent) (offset : Nat)
    (samples : List Int32) (inside : offset + samples.length ≤ pool.blockSize) :
    ∃ old written, pool.blocks[block]? = some old ∧ old.length = pool.blockSize ∧
      write block offset samples pool = (.ok (), written) ∧ written.Lends lent ∧
      written.blocks[block]? =
        some (old.take offset ++ samples ++ old.drop (offset + samples.length)) ∧
      ∀ others, block ∉ others → written.Keeps pool others := by
  obtain ⟨old, found, isContents, size⟩ := lends.contents member
  have bound : block < pool.blocks.size := lends.lt_allocated member
  refine ⟨old, _, found, size, write_of_ok inside isContents, ?_, ?_, ?_⟩
  · constructor
    case sizes =>
      intro other contents isOther
      rw [overwrite, Array.getElem?_setIfInBounds] at isOther
      split at isOther
      next =>
        cases isOther
        simp only [overwrite, List.length_append, List.length_take, List.length_drop, size]
        omega
      next => exact lends.sizes other contents isOther
    case partition =>
      dsimp only [overwrite, allocated]
      rw [Array.size_setIfInBounds]
      exact lends.partition
    case flags => exact lends.flags
  · exact Array.getElem?_setIfInBounds_self_of_lt bound
  · intro others notMember
    refine ⟨rfl, ?_⟩
    intro other isOther
    refine Array.getElem?_setIfInBounds_ne ?_
    rintro rfl
    exact notMember isOther

/-- A lent block can be released, and only the other ones are lent then. -/
theorem release_spec {block : Nat} (lends : pool.Lends (block :: lent)) :
    ∃ released, release block pool = (.ok (), released) ∧ released.Lends lent ∧
      released.Keeps pool lent := by
  obtain ⟨samples, _, isContents, _⟩ := lends.contents List.mem_cons_self
  have notLent : block ∉ lent := by
    have nodup := (List.nodup_append.mp lends.nodup).2.1
    exact (List.nodup_cons.mp nodup).1
  refine ⟨_, release_of_ok isContents, ?_, rfl, fun _ _ => rfl⟩
  constructor
  case sizes => exact lends.sizes
  case partition => exact List.perm_middle.symm.trans lends.partition
  case flags =>
    intro other
    have isFlag := lends.flags other
    rw [List.mem_cons] at isFlag
    by_cases same : other = block
    · subst same
      have inside : other < pool.checkedOut.size := by
        rw [pool.size_checkedOut]
        exact lends.lt_allocated List.mem_cons_self
      simp [flag, Array.getElem?_setIfInBounds_self_of_lt inside, notLent]
    · rw [or_iff_right same] at isFlag
      rw [← isFlag]
      simp [flag, Array.getElem?_setIfInBounds_ne (Ne.symm same)]

/-- Lent blocks can be released, and only the other ones are lent then. -/
theorem releaseAll_spec (lends : pool.Lends (blocks ++ lent)) :
    ∃ released, releaseAll blocks pool = (.ok (), released) ∧ released.Lends lent ∧
      released.Keeps pool lent := by
  induction blocks generalizing pool with
  | nil => exact ⟨pool, rfl, lends, pool.keeps_refl lent⟩
  | cons block later ih =>
      obtain ⟨between, isReleased, betweenLends, betweenKeeps⟩ := release_spec lends
      obtain ⟨released, areReleased, releasedLends, keeps⟩ := ih betweenLends
      refine ⟨released, ?_, releasedLends,
        keeps.trans (betweenKeeps.mono (List.subset_append_right later lent))⟩
      rw [releaseAll, Process.bind_of_ok (Process.attempt_of_ok isReleased),
        Process.bind_of_ok areReleased]
      rfl

/-! ## Appending and reading -/

/-- The block for the next sample is the last of a list of lent blocks, which is as long as the
sample needs it to be. It is the same list, or a block has been checked out for it. -/
theorem blockForNext_spec (lends : pool.Lends (blocks ++ lent))
    (stores : pool.Stores blocks values) :
    ∃ before block ready,
      blockForNext blocks values.length pool = (.ok (block, before ++ [block]), ready) ∧
      before.length = values.length / pool.blockSize ∧ ready.Lends (before ++ [block] ++ lent) ∧
      ready.Keeps pool lent ∧
      (ready.samplesIn (before ++ [block])).take values.length = values := by
  obtain ⟨enough, needed, areValues⟩ := stores
  have division := Nat.div_add_mod' values.length pool.blockSize
  have remainder := Nat.mod_lt values.length pool.blockSize_pos
  rw [blockForNext, Process.get_bind]
  generalize values.length / pool.blockSize = place at division ⊢
  cases isBlock : blocks[place]? with
  | some block =>
      obtain ⟨inside, isBlock⟩ := List.getElem?_eq_some_iff.mp isBlock
      have isLast : blocks.length = place + 1 := by
        have fewer : blocks.length * pool.blockSize < (place + 2) * pool.blockSize := by
          rw [Nat.add_mul]
          omega
        have bound := Nat.lt_of_mul_lt_mul_right fewer
        omega
      have split : blocks = blocks.take place ++ [block] := by
        rw [← isBlock, List.take_append_getElem inside, ← isLast, List.take_length]
      refine ⟨blocks.take place, block, pool, ?_, ?_, ?_, pool.keeps_refl lent, ?_⟩
      · rw [← split]
        rfl
      · rw [List.length_take, isLast]
        omega
      · rw [← split]
        exact lends
      · rw [← split]
        exact areValues
  | none =>
      have isFull : blocks.length = place := by
        have notMore := List.getElem?_eq_none_iff.mp isBlock
        have notLess : place * pool.blockSize ≤ blocks.length * pool.blockSize := by omega
        exact Nat.le_antisymm notMore (Nat.le_of_mul_le_mul_right notLess pool.blockSize_pos)
      obtain ⟨block, ready, isCheckedOut, readyLends, keeps⟩ := checkout_spec lends
      refine ⟨blocks, block, ready, Process.bind_of_ok isCheckedOut _, isFull, ?_, ?_, ?_⟩
      · apply readyLends.perm
        rw [List.append_assoc]
        exact List.perm_middle.symm
      · exact keeps.mono (List.subset_append_right blocks lent)
      · have allKept := (keeps.mono (List.subset_append_left blocks lent)).samplesIn_eq
        have size := lends.length_samplesIn (List.subset_append_left blocks lent)
        rw [samplesIn_append, allKept, List.take_append_of_le_length (by omega)]
        exact areValues

/-- Writing behind the values of the last block stores more values. -/
theorem stores_written {before : List Nat} {block : Nat} {old piece : List Int32}
    (count : before.length = values.length / pool.blockSize)
    (beforeFull : (pool.samplesIn before).length = before.length * pool.blockSize)
    (found : pool.blocks[block]? = some old)
    (areValues : (pool.samplesIn (before ++ [block])).take values.length = values)
    (nonempty : piece ≠ [])
    (inside : values.length % pool.blockSize + piece.length ≤ pool.blockSize)
    (keeps : changed.Keeps pool before)
    (isWritten : changed.blocks[block]? =
      some (old.take (values.length % pool.blockSize) ++ piece ++
        old.drop (values.length % pool.blockSize + piece.length))) :
    changed.Stores (before ++ [block]) (values ++ piece) := by
  have division := Nat.div_add_mod' values.length pool.blockSize
  have remainder := Nat.mod_lt values.length pool.blockSize_pos
  have pieceLength := List.length_pos_iff.mpr nonempty
  rw [← count] at division
  have blockCount : (before ++ [block]).length * changed.blockSize =
      before.length * pool.blockSize + pool.blockSize := by
    rw [keeps.blockSize, List.length_append, List.length_singleton, Nat.add_mul, Nat.one_mul]
  have offset : values.length - (pool.samplesIn before).length =
      values.length % pool.blockSize := by omega
  have former : pool.samplesIn before ++ old.take (values.length % pool.blockSize) = values := by
    rw [samplesIn_append, samplesIn_singleton found, List.take_append, offset,
      List.take_of_length_le (by omega)] at areValues
    exact areValues
  constructor
  case enough =>
    rw [blockCount, List.length_append]
    omega
  case needed =>
    rw [blockCount, List.length_append, keeps.blockSize]
    omega
  case values =>
    rw [samplesIn_append, keeps.samplesIn_eq, samplesIn_singleton isWritten, ← List.append_assoc,
      ← List.append_assoc, former]
    exact List.take_left

/-- Samples can be added to lent blocks. -/
theorem appendTo_spec (samples : List Int32) (lends : pool.Lends (blocks ++ lent))
    (stores : pool.Stores blocks values) :
    ∃ longer changed, appendTo blocks values.length samples pool = (.ok longer, changed) ∧
      changed.Lends (longer ++ lent) ∧ changed.Stores longer (values ++ samples) ∧
      changed.Keeps pool lent := by
  induction count : samples.length using Nat.strongRecOn
    generalizing pool blocks values samples with
  | ind count ih =>
      subst count
      rw [appendTo]
      by_cases isEmpty : samples = []
      · refine ⟨blocks, pool, by rw [if_pos isEmpty]; rfl, lends, ?_, pool.keeps_refl lent⟩
        rw [isEmpty, List.append_nil]
        exact stores
      obtain ⟨before, block, ready, isNext, place, readyLends, readyKeeps, areValues⟩ :=
        blockForNext_spec lends stores
      have sameSize := readyKeeps.blockSize
      have remainder := Nat.mod_lt values.length pool.blockSize_pos
      have samplesLength := List.length_pos_iff.mpr isEmpty
      generalize isRoom : pool.blockSize - values.length % pool.blockSize = room
      have pieceLength : (samples.take room).length = min room samples.length := List.length_take
      have inside : values.length % pool.blockSize + (samples.take room).length ≤
        ready.blockSize := by
        omega
      have nonempty : samples.take room ≠ [] := List.length_pos_iff.mp (by omega)
      have beforeLent : before ⊆ before ++ [block] ++ lent := by
        rw [List.append_assoc]
        exact List.subset_append_left _ _
      obtain ⟨old, written, found, size, isWritten, writtenLends, contents, keeps⟩ :=
        write_spec readyLends (show block ∈ before ++ [block] ++ lent by simp) _
          (samples.take room) inside
      have notBefore := readyLends.notMem_of_last
      rw [← sameSize] at place
      have writtenStores := stores_written place (readyLends.length_samplesIn beforeLent) found
        areValues nonempty (by rw [sameSize]; rwa [sameSize] at inside) (keeps before notBefore.1)
        (by rw [sameSize]; exact contents)
      obtain ⟨longer, changed, isLonger, changedLends, changedStores, changedKeeps⟩ :=
        ih (samples.drop room).length (by rw [List.length_drop]; omega) (samples.drop room)
          writtenLends writtenStores rfl
      refine ⟨longer, changed, ?_, changedLends, ?_,
        changedKeeps.trans ((keeps lent notBefore.2).trans readyKeeps)⟩
      · rw [List.length_append] at isLonger
        rw [if_neg isEmpty, Process.get_bind]
        dsimp only
        rw [Process.bind_of_ok isNext, isRoom]
        dsimp only
        rw [Process.bind_of_ok isWritten]
        exact isLonger
      · rw [List.append_assoc, List.take_append_drop] at changedStores
        exact changedStores

/-- Values can be read from the blocks that store them. -/
theorem readFrom_spec (lends : pool.Lends lent) (subset : blocks ⊆ lent)
    (stores : pool.Stores blocks values) (index count : Nat)
    (inside : index + count ≤ values.length) :
    readFrom blocks index count pool = (.ok ((values.drop index).take count), pool) := by
  induction count using Nat.strongRecOn generalizing index with
  | ind count ih =>
      rw [readFrom]
      by_cases none : count = 0
      · rw [if_pos none, none, List.take_zero]
        rfl
      have division := Nat.div_add_mod' index pool.blockSize
      have remainder := Nat.mod_lt index pool.blockSize_pos
      have enough := stores.enough
      have place : index / pool.blockSize < blocks.length :=
        (Nat.div_lt_iff_lt_mul pool.blockSize_pos).mpr (by omega)
      obtain ⟨block, isBlock⟩ : ∃ block, blocks[index / pool.blockSize]? = some block :=
        ⟨_, List.getElem?_eq_getElem place⟩
      obtain ⟨samples, found, isContents, size⟩ :=
        lends.contents (subset (List.mem_of_getElem? isBlock))
      generalize isTaken : min (pool.blockSize - index % pool.blockSize) count = taken
      have bounds : index % pool.blockSize + taken ≤ pool.blockSize := by omega
      have isRead := read_of_ok bounds isContents
      have isHere : (samples.drop (index % pool.blockSize)).take taken =
          (values.drop index).take taken := by
        have fromBlock := lends.drop_samplesIn subset isBlock found
        calc (samples.drop (index % pool.blockSize)).take taken
            = ((samples ++ pool.samplesIn (blocks.drop (index / pool.blockSize + 1))).drop
                (index % pool.blockSize)).take taken := by
              rw [List.drop_append_of_le_length (by omega),
                List.take_append_of_le_length (by rw [List.length_drop]; omega)]
          _ = ((pool.samplesIn blocks).drop index).take taken := by
              rw [← fromBlock, List.drop_drop, division]
          _ = (((pool.samplesIn blocks).take values.length).drop index).take taken := by
              rw [List.drop_take, List.take_take, Nat.min_eq_left (by omega)]
          _ = (values.drop index).take taken := by rw [stores.values]
      have later := ih (count - taken) (by omega) (index + taken) (by omega)
      have whole : taken + (count - taken) = count := by omega
      have parts : (values.drop index).take count =
          (samples.drop (index % pool.blockSize)).take taken ++
            (values.drop (index + taken)).take (count - taken) := by
        rw [isHere, ← List.drop_drop, ← List.take_add, whole]
      rw [if_neg none, parts, Process.get_bind, isBlock, isTaken]
      dsimp only
      rw [Process.bind_of_ok isRead, Process.bind_of_ok later]
      rfl

/-- Reading lent blocks one after the other gives the first of their samples. -/
theorem readBlocks_spec (lends : pool.Lends lent) (subset : blocks ⊆ lent) (length : Nat) :
    readBlocks blocks length pool = (.ok ((pool.samplesIn blocks).take length), pool) := by
  induction blocks generalizing length with
  | nil => rw [samplesIn, List.flatMap_nil, List.take_nil, readBlocks]; rfl
  | cons block later ih =>
      obtain ⟨samples, found, isContents, size⟩ := lends.contents (subset List.mem_cons_self)
      have bounds : 0 + min length pool.blockSize ≤ pool.blockSize := by omega
      have isHere := read_of_ok bounds isContents
      rw [List.drop_zero, ← size, ← List.take_eq_take_min, size] at isHere
      have isRest := ih (List.subset_of_cons_subset subset) (length - pool.blockSize)
      have parts : pool.samplesIn (block :: later) = samples ++ pool.samplesIn later := by
        rw [← samplesIn_singleton found, ← samplesIn_append, List.singleton_append]
      rw [readBlocks, parts, List.take_append, size]
      exact (Process.bind_of_ok isHere _).trans (Process.bind_of_ok isRest _)

end

end Pool

end Waveform
