import Waveform.Proofs.Storage.Holding

/-!
# Operations on stored traces

Every operation on a trace that pools hold simulates the operation on the plain trace, whatever
other traces the pools hold.
-/

namespace Waveform

namespace StoredTrace

variable {blockSizes : List Nat} {pools : List Pool} {rest : List (StoredTrace × Trace)}
  {stored : StoredTrace} {plain : Trace}

/-! ## Reading -/

/-- A question to a pool leaves all pools as they are. -/
theorem ask_pool {α : Type} {number : Nat} {pool : Pool} (isPool : pools[number]? = some pool)
    {question : PoolUse α} {answer : α} (isAnswer : question pool = (.ok answer, pool)) :
    Stored.onPool number question pools = (.ok answer, pools) := by
  obtain ⟨inside, isPool'⟩ := List.getElem?_eq_some_iff.mp isPool
  have unchanged : pools.set number pool = pools := by
    rw [← isPool']
    exact List.set_getElem_self inside
  rw [Stored.onPool_of_ok isPool isAnswer, unchanged]

theorem read_eq (holds : Holds blockSizes pools ((stored, plain) :: rest)) {run : IndexRun}
    (fits : run.FitsIn plain.samples.length) :
    stored.read run pools = (.ok (plain.read run), pools) := by
  obtain ⟨pool, isPool, lends, stores⟩ := holds.exists_pool
  apply ask_pool isPool
  by_cases none : run.count = 0
  · rw [Pool.readFrom, if_pos none, Trace.read, none, List.take_zero]
    rfl
  · exact Pool.readFrom_spec lends (List.subset_append_left _ _) stores run.first run.count
      (fits none)

theorem samples_eq (holds : Holds blockSizes pools ((stored, plain) :: rest)) :
    stored.samples pools = (.ok plain.samples, pools) := by
  have describes := holds.describes_head
  have fits : (⟨0, stored.length⟩ : IndexRun).FitsIn plain.samples.length := by
    intro _
    rw [describes.length, Nat.zero_add]
  have isRead := read_eq holds fits
  simp only [samples]
  rw [isRead, Trace.read, describes.length, List.drop_zero, List.take_length]

/-- Reading the run that an extent names simulates reading it of the plain trace. -/
theorem simulates_readRun (holds : Holds blockSizes pools ((stored, plain) :: rest))
    {named : Except TraceError IndexRun}
    (fits : ∀ run, named = .ok run → run.FitsIn plain.samples.length) :
    Simulates (do stored.read (← Stored.lift named)) pools ((named.map plain.read).mapError .trace)
      fun result value changed => result = value ∧ changed = pools := by
  cases named with
  | error error => rfl
  | ok run => exact ⟨plain.read run, pools, read_eq holds (fits run rfl), rfl, rfl⟩

theorem slice_simulates (holds : Holds blockSizes pools ((stored, plain) :: rest))
    (index count : Nat) :
    Simulates (stored.slice index count) pools ((plain.slice index count).mapError .trace)
      fun result value changed => result = value ∧ changed = pools := by
  simp only [slice]
  rw [holds.describes_head.extent_eq]
  exact simulates_readRun holds fun _ isRun => Extent.run_fits isRun

theorem sliceFrom_simulates (holds : Holds blockSizes pools ((stored, plain) :: rest))
    (time : Int) (count : Nat) :
    Simulates (stored.sliceFrom time count) pools ((plain.sliceFrom time count).mapError .trace)
      fun result value changed => result = value ∧ changed = pools := by
  simp only [sliceFrom]
  rw [holds.describes_head.extent_eq]
  exact simulates_readRun holds fun _ isRun => Extent.runFrom_fits isRun

theorem sliceBetween_simulates (holds : Holds blockSizes pools ((stored, plain) :: rest))
    (first last : Int) :
    Simulates (stored.sliceBetween first last) pools
      ((plain.sliceBetween first last).mapError .trace)
      fun result value changed => result = value ∧ changed = pools := by
  have describes := holds.describes_head
  simp only [sliceBetween]
  rw [describes.extent_eq]
  exact simulates_readRun holds fun _ isRun => Extent.runBetween_fits describes.nonneg isRun

theorem digest_eq (holds : Holds blockSizes pools ((stored, plain) :: rest)) :
    stored.digest pools = (.ok plain.digest, pools) := by
  have describes := holds.describes_head
  obtain ⟨pool, isPool, lends, stores⟩ := holds.exists_pool
  have areRead : Pool.readBlocks stored.blocks stored.length pool = (.ok plain.samples, pool) := by
    rw [Pool.readBlocks_spec lends (List.subset_append_left _ _), describes.length, stores.values]
  simp only [digest]
  rw [Process.bind_of_ok (ask_pool isPool areRead), describes.start, describes.rate]
  rfl

/-! ## Changing -/

theorem append_simulates (holds : Holds blockSizes pools ((stored, plain) :: rest))
    (samples : List Int32) :
    Simulates (stored.append samples) pools (.ok (plain.append samples))
      fun longer plainLonger changed =>
        Holds blockSizes changed ((longer, plainLonger) :: rest) := by
  obtain ⟨pool, isPool, lends, stores⟩ := holds.exists_pool
  have describes := holds.describes_head
  obtain ⟨blocks, changed, isLonger, changedLends, changedStores, keeps⟩ :=
    Pool.appendTo_spec samples lends stores
  rw [← describes.length] at isLonger
  have onPool := Stored.onPool_of_ok isPool isLonger
  have longerDescribes : ({ stored with blocks, length := stored.length + samples.length } :
      StoredTrace).Describes (plain.append samples) :=
    ⟨describes.start, describes.rate, describes.interval, by simp [describes.length],
      describes.nonneg⟩
  simp only [append]
  refine ⟨{ stored with blocks, length := stored.length + samples.length },
    pools.set stored.pool changed, ?_, ?_⟩
  · rw [Process.bind_of_ok onPool]
    rfl
  · exact holds.setPool isPool longerDescribes rfl changedLends changedStores keeps

/-- A pool that lends no blocks can hold any traces. -/
theorem exists_holds {pool : Pool} (idle : pool.Lends []) (traces : List Trace)
    (nonneg : ∀ trace ∈ traces, 0 ≤ trace.interval) :
    ∃ entries pools, entries.map Prod.snd = traces ∧ Holds [pool.blockSize] pools entries := by
  induction traces with
  | nil =>
      have allIdle : ∀ other ∈ [pool], other.Lends [] := by
        intro other member
        rw [List.mem_singleton.mp member]
        exact idle
      exact ⟨[], [pool], rfl, holds_nil allIdle⟩
  | cons trace later ih =>
      obtain ⟨entries, pools, rfl, holds⟩ :=
        ih fun other member => nonneg other (List.mem_cons_of_mem trace member)
      have isSingle : pools.length = 1 := by
        rw [← List.length_map Pool.blockSize, holds.sizes, List.length_singleton]
      have begun : Holds [pool.blockSize] pools
          ((⟨0, [], 0, trace.start, trace.rate, trace.interval⟩, trace.clear) :: entries) := by
        apply holds.addEmpty (isSingle ▸ Nat.one_pos) rfl rfl
        exact ⟨rfl, rfl, rfl, rfl, nonneg trace List.mem_cons_self⟩
      obtain ⟨stored, changed, _, storedHolds⟩ := append_simulates begun trace.samples
      exact ⟨(stored, trace) :: entries, changed, rfl, storedHolds⟩

theorem clear_simulates (holds : Holds blockSizes pools ((stored, plain) :: rest)) :
    Simulates stored.clear pools (.ok plain.clear)
      fun cleared plainCleared changed =>
        Holds blockSizes changed ((cleared, plainCleared) :: rest) := by
  obtain ⟨pool, isPool, lends, _⟩ := holds.exists_pool
  have describes := holds.describes_head
  obtain ⟨released, areReleased, releasedLends, keeps⟩ := Pool.releaseAll_spec lends
  have onPool := Stored.onPool_of_ok isPool areReleased
  have clearedDescribes : ({ stored with blocks := [], length := 0 } : StoredTrace).Describes
      plain.clear :=
    ⟨describes.start, describes.rate, describes.interval, rfl, describes.nonneg⟩
  simp only [clear]
  refine ⟨{ stored with blocks := [], length := 0 }, pools.set stored.pool released, ?_, ?_⟩
  · rw [Process.bind_of_ok onPool]
    rfl
  · exact holds.setPool isPool clearedDescribes rfl releasedLends (Pool.stores_nil released) keeps

theorem extend_simulates (holds : Holds blockSizes pools ((stored, plain) :: rest))
    (samples : List Int32) (offset length : Nat) :
    Simulates (stored.extend samples offset length) pools
      ((plain.extend samples offset length).mapError .trace)
      fun longer plainLonger changed =>
        Holds blockSizes changed ((longer, plainLonger) :: rest) := by
  simp only [extend, Trace.extend]
  cases Trace.part? samples offset length with
  | error error => rfl
  | ok part => exact append_simulates holds part

theorem setStart_holds (holds : Holds blockSizes pools ((stored, plain) :: rest)) (start : Int) :
    Holds blockSizes pools ((stored.setStart start, plain.setStart start) :: rest) := by
  have describes := holds.describes_head
  exact holds.retell rfl rfl rfl
    ⟨rfl, describes.rate, describes.interval, describes.length, describes.nonneg⟩

theorem setRate_simulates (holds : Holds blockSizes pools ((stored, plain) :: rest))
    (rate : Float) :
    Simulates (Stored.lift (stored.setRate rate)) pools ((plain.setRate rate).mapError .trace)
      fun changed plainChanged pools =>
        Holds blockSizes pools ((changed, plainChanged) :: rest) := by
  have describes := holds.describes_head
  have isEmpty : stored.length ≠ 0 ↔ plain.samples ≠ [] := by
    rw [describes.length]
    exact not_congr List.length_eq_zero_iff
  simp only [setRate, Trace.setRate]
  cases isLegal : SampleRate.interval? rate with
  | none => rfl
  | some interval =>
      dsimp only
      simp only [isEmpty, describes.interval]
      split
      next => rfl
      next =>
        refine ⟨_, pools, rfl, holds.retell rfl rfl rfl ?_⟩
        exact ⟨describes.start, rfl, rfl, describes.length,
          (SampleRate.pos_of_interval? isLegal).le⟩

/-! ## Narrowing -/

theorem keep_simulates (holds : Holds blockSizes pools ((stored, plain) :: rest)) {kept : IndexRun}
    (fits : kept.FitsIn plain.samples.length) :
    Simulates (stored.keep kept) pools (.ok (plain.keep kept))
      fun narrow plainNarrow changed =>
        Holds blockSizes changed ((narrow, plainNarrow) :: rest) := by
  have describes := holds.describes_head
  simp only [keep]
  by_cases none : kept.count = 0
  · have isCleared : plain.keep kept = plain.clear := by
      simp [Trace.keep, Trace.clear, Trace.read, Extent.keep, none]
    rw [if_pos none, isCleared]
    exact clear_simulates holds
  rw [if_neg none, describes.length]
  have inside := fits none
  by_cases all : kept.count = plain.samples.length
  · have isFirst : kept.first = 0 := by omega
    have isWhole : plain.keep kept = plain := by
      have sameStart : (plain.extent.keep kept).start = plain.start := by
        rw [Extent.start_keep none, isFirst]
        simp [Extent.timeAt]
      simp only [Trace.keep, Trace.read]
      rw [sameStart, isFirst, all, List.drop_zero, List.take_length]
    rw [if_pos all, isWhole]
    exact simulates_pure holds
  · have sameStart : (stored.extent.keep kept).start = (plain.extent.keep kept).start := by
      rw [describes.extent_eq]
    rw [if_neg all, sameStart]
    obtain ⟨cleared, changed, isCleared, clearedHolds⟩ := clear_simulates holds
    have appended := append_simulates
      (setStart_holds clearedHolds (plain.extent.keep kept).start) (plain.read kept)
    simp only [Simulates] at appended ⊢
    rw [Process.bind_of_ok (read_eq holds fits), Process.bind_of_ok isCleared]
    exact appended

theorem crop_simulates (holds : Holds blockSizes pools ((stored, plain) :: rest))
    (first last : Int) :
    Simulates (stored.crop first last) pools ((plain.crop first last).mapError .trace)
      fun narrow plainNarrow changed =>
        Holds blockSizes changed ((narrow, plainNarrow) :: rest) := by
  simp only [crop, Trace.crop]
  rw [holds.describes_head.extent_eq]
  cases isRun : plain.extent.runWithin first last with
  | error error => rfl
  | ok kept => exact keep_simulates holds (Extent.runWithin_fits isRun)

theorem dropBefore_simulates (holds : Holds blockSizes pools ((stored, plain) :: rest))
    (first : Int) :
    Simulates (stored.dropBefore first) pools ((plain.dropBefore first).mapError .trace)
      fun narrow plainNarrow changed =>
        Holds blockSizes changed ((narrow, plainNarrow) :: rest) := by
  simp only [dropBefore, Trace.dropBefore]
  rw [holds.describes_head.stop_eq]
  exact crop_simulates holds first plain.stop

theorem dropAfter_simulates (holds : Holds blockSizes pools ((stored, plain) :: rest))
    (last : Int) :
    Simulates (stored.dropAfter last) pools ((plain.dropAfter last).mapError .trace)
      fun narrow plainNarrow changed =>
        Holds blockSizes changed ((narrow, plainNarrow) :: rest) := by
  simp only [dropAfter, Trace.dropAfter]
  rw [holds.describes_head.start]
  exact crop_simulates holds plain.start last

/-! ## Joining -/

variable {source target : StoredTrace} {plainSource plainTarget : Trace}

/-- Moving leaves the later trace without samples and the earlier one with those that it does not
cover, even where both are in one pool and the blocks of the later one are used again. -/
theorem moveOnto_simulates
    (holds : Holds blockSizes pools ((source, plainSource) :: (target, plainTarget) :: rest))
    (covered : Nat) :
    Simulates (source.moveOnto target covered) pools
      (.ok (plainSource.clear, plainTarget.append (plainSource.samples.drop covered)))
      fun moved plainMoved changed => Holds blockSizes changed
        ((moved.1, plainMoved.1) :: (moved.2, plainMoved.2) :: rest) := by
  have describes := holds.describes_head
  have fits : (⟨covered, source.length - covered⟩ : IndexRun).FitsIn
      plainSource.samples.length := by
    intro some
    dsimp only at some ⊢
    have sameLength := describes.length
    omega
  have isRead : plainSource.read ⟨covered, source.length - covered⟩ =
      plainSource.samples.drop covered := by
    rw [Trace.read, describes.length, ← List.length_drop, List.take_length]
  obtain ⟨cleared, changed, isCleared, clearedHolds⟩ := clear_simulates holds
  obtain ⟨longer, final, isLonger, longerHolds⟩ := append_simulates
    (clearedHolds.perm (List.Perm.swap _ _ rest)) (plainSource.samples.drop covered)
  refine ⟨(cleared, longer), final, ?_, longerHolds.perm (List.Perm.swap _ _ rest)⟩
  simp only [moveOnto]
  rw [Process.bind_of_ok (read_eq holds fits), isRead, Process.bind_of_ok isCleared,
    Process.bind_of_ok isLonger]
  rfl

theorem applyPlan_simulates
    (holds : Holds blockSizes pools ((source, plainSource) :: (target, plainTarget) :: rest))
    (plan : JoinPlan) :
    Simulates (source.applyPlan target plan) pools (.ok (plainSource.applyPlan plainTarget plan))
      fun joined plainJoined changed => Holds blockSizes changed
        ((joined.source, plainJoined.source) :: (joined.target, plainJoined.target) :: rest) := by
  have swapped := holds.perm (List.Perm.swap _ _ rest)
  cases plan with
  | keepTarget =>
      obtain ⟨cleared, changed, isCleared, clearedHolds⟩ := clear_simulates holds
      refine ⟨⟨cleared, target⟩, changed, ?_, clearedHolds⟩
      rw [applyPlan, Process.bind_of_ok isCleared]
      rfl
  | exchange => exact ⟨⟨target, source⟩, pools, rfl, swapped⟩
  | sourceAfter covered =>
      obtain ⟨moved, changed, isMoved, movedHolds⟩ := moveOnto_simulates holds covered
      refine ⟨⟨moved.1, moved.2⟩, changed, ?_, movedHolds⟩
      rw [applyPlan, Process.bind_of_ok isMoved]
      rfl
  | sourceBefore covered =>
      obtain ⟨moved, changed, isMoved, movedHolds⟩ := moveOnto_simulates swapped covered
      refine ⟨⟨moved.1, moved.2⟩, changed, ?_, movedHolds⟩
      rw [applyPlan, Process.bind_of_ok isMoved]
      rfl

theorem joinTo_simulates
    (holds : Holds blockSizes pools ((source, plainSource) :: (target, plainTarget) :: rest))
    (tolerance : Tolerance) :
    Simulates (source.joinTo target tolerance) pools
      ((plainSource.joinTo plainTarget tolerance).mapError .trace)
      fun joined plainJoined changed => Holds blockSizes changed
        ((joined.source, plainJoined.source) :: (joined.target, plainJoined.target) :: rest) := by
  have targetDescribes := holds.describes (target, plainTarget) (by simp)
  simp only [joinTo, Trace.joinTo]
  rw [holds.describes_head.extent_eq, targetDescribes.extent_eq]
  cases plainSource.extent.joinPlan plainTarget.extent tolerance with
  | error error => rfl
  | ok plan => exact applyPlan_simulates holds plan

end StoredTrace

end Waveform
