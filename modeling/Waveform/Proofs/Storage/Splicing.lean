import Waveform.Proofs.Storage.Operations

/-!
# Splicing stored traces

Splicing stored traces comes to what splicing plain ones comes to. All of them are used up: what is
left is the result, or nothing if they cannot be combined.
-/

namespace Waveform

namespace Extent

variable {source target : Extent} {tolerance : Tolerance}

/-- Two extents change places only if the target has no samples. -/
theorem length_eq_zero_of_exchange (isPlan : source.joinPlan target tolerance = .ok .exchange) :
    target.length = 0 := by
  simp only [joinPlan, sameInterval] at isPlan
  by_cases same : source.interval = target.interval
  · simp only [same, if_true, bind, Except.bind] at isPlan
    by_contra nonempty
    rw [if_neg nonempty] at isPlan
    repeat' split at isPlan
    all_goals cases isPlan
  · simp only [same, if_false, bind, Except.bind] at isPlan
    cases isPlan

/-- Without an interval, a source that starts in a target lies within it. -/
theorem pos_of_disjointness {error : TraceError}
    (isError : source.joinPlan target tolerance = .error error)
    (disjoint : Trace.isDisjointness error = true) (nonneg : 0 ≤ source.interval)
    (starts : target.start ≤ source.start) (meets : source.start ≤ target.stop) :
    0 < source.interval := by
  by_contra noInterval
  have isZero : source.interval = 0 := le_antisymm (not_lt.mp noInterval) nonneg
  have sourceStop : source.stop = source.start := by
    simp only [stop]
    simp [isZero]
  have isWithin : source.isWithin target = true := by
    simp only [Extent.isWithin, Bool.and_eq_true, decide_eq_true_eq, sourceStop]
    exact ⟨starts, meets⟩
  simp only [joinPlan, sameInterval] at isError
  by_cases same : source.interval = target.interval
  · simp only [same, if_true, bind, Except.bind] at isError
    rw [sourceStop, if_neg (not_lt.mpr meets), if_neg (not_lt.mpr starts),
      if_pos isWithin] at isError
    split at isError
    next => cases isError
    next =>
      split at isError
      next => cases isError
      next => cases isError
  · simp only [same, if_false, bind, Except.bind] at isError
    cases isError
    cases disjoint

end Extent

namespace Trace

variable {source target : Trace} {tolerance : Tolerance} {plan : JoinPlan}

/-- A planned join leaves nothing of the source. -/
theorem source_applyPlan (isPlan : source.extent.joinPlan target.extent tolerance = .ok plan) :
    (source.applyPlan target plan).source.samples = [] := by
  cases plan with
  | keepTarget | sourceAfter | sourceBefore => rfl
  | exchange =>
      have isEmpty := Extent.length_eq_zero_of_exchange isPlan
      exact List.length_eq_zero_iff.mp isEmpty

theorem start_applyPlan (source target : Trace) (plan : JoinPlan) :
    (source.applyPlan target plan).target.start = source.start ∨
      (source.applyPlan target plan).target.start = target.start := by
  cases plan with
  | keepTarget | sourceAfter => exact .inr rfl
  | exchange | sourceBefore => exact .inl rfl

variable {spliced next : Trace} {error : TraceError}

theorem spliceOnto_of_plan
    (isPlan : next.extent.joinPlan spliced.extent Tolerance.standard = .ok plan) :
    spliced.spliceOnto next = .ok (next.applyPlan spliced plan).target := by
  simp only [spliceOnto, joinTo]
  rw [isPlan]
  rfl

theorem spliceOnto_of_disjoint
    (isError : next.extent.joinPlan spliced.extent Tolerance.standard = .error error)
    (disjoint : isDisjointness error = true) :
    spliced.spliceOnto next =
      if next.start ≤ spliced.stop then
        (next.dropBefore (spliced.stop + 1)).map fun left => spliced.append left.samples
      else .ok (spliced.append next.samples) := by
  simp only [spliceOnto, joinTo]
  rw [isError]
  exact if_pos disjoint

theorem spliceOnto_of_mismatch
    (isError : next.extent.joinPlan spliced.extent Tolerance.standard = .error error)
    (mismatch : ¬ isDisjointness error = true) : spliced.spliceOnto next = .error error := by
  simp only [spliceOnto, joinTo]
  rw [isError]
  exact if_neg mismatch

end Trace

namespace StoredTrace

variable {blockSizes : List Nat} {pools : List Pool} {rest : List (StoredTrace × Trace)}

/-- Pools hold a spliced trace as the plain one is, or traces could not be spliced either way
and the pools hold nothing of them. -/
inductive HoldsSpliced (blockSizes : List Nat) (rest : List (StoredTrace × Trace))
    (pools : List Pool) : Except TraceError StoredTrace → Except TraceError Trace → Prop where
  | spliced (stored : StoredTrace) (plain : Trace)
      (holds : Holds blockSizes pools ((stored, plain) :: rest)) :
      HoldsSpliced blockSizes rest pools (.ok stored) (.ok plain)
  | failed (error : TraceError) (holds : Holds blockSizes pools rest) :
      HoldsSpliced blockSizes rest pools (.error error) (.error error)

/-- Clearing traces leaves the other ones. -/
theorem clearAll_spec (entries : List (StoredTrace × Trace))
    (holds : Holds blockSizes pools (entries ++ rest)) :
    ∃ changed, (entries.map Prod.fst).forM (fun trace => discard trace.clear) pools =
      (.ok (), changed) ∧ Holds blockSizes changed rest := by
  induction entries generalizing pools with
  | nil => exact ⟨pools, rfl, holds⟩
  | cons entry later ih =>
      obtain ⟨cleared, between, isCleared, clearedHolds⟩ := clear_simulates holds
      obtain ⟨changed, areCleared, changedHolds⟩ := ih (clearedHolds.dropEmpty rfl)
      refine ⟨changed, ?_, changedHolds⟩
      have isDiscarded : (discard entry.1.clear : Stored Unit) pools = (.ok (), between) :=
        Process.map_of_ok isCleared (Function.const StoredTrace ())
      rw [List.map_cons, List.forM, Process.bind_of_ok isDiscarded]
      exact areCleared

/-- Where a trace cannot be joined to the spliced one, what is left of it behind that is put at the
end. -/
theorem spliceApart_simulates {spliced next : StoredTrace} {plain plainNext : Trace}
    (holds : Holds blockSizes pools ((spliced, plain) :: (next, plainNext) :: rest))
    (ordered : plain.start ≤ plainNext.start) {error : TraceError}
    (isError : plainNext.extent.joinPlan plain.extent Tolerance.standard = .error error)
    (disjoint : Trace.isDisjointness error = true) :
    ∃ left between moved changed,
      (if next.start ≤ spliced.stop then next.dropBefore (spliced.stop + 1) else pure next :
        Stored StoredTrace) pools = (.ok left, between) ∧
      left.moveOnto spliced 0 between = (.ok moved, changed) ∧
      ∃ longer, plain.spliceOnto plainNext = .ok longer ∧ longer.start = plain.start ∧
        Holds blockSizes changed ((moved.2, longer) :: rest) := by
  have swapped := holds.perm (List.Perm.swap _ _ rest)
  have describes := holds.describes_head
  have nextDescribes := swapped.describes_head
  have finish (left : StoredTrace) (plainLeft : Trace) (between : List Pool)
      (leftHolds : Holds blockSizes between ((left, plainLeft) :: (spliced, plain) :: rest)) :
      ∃ moved changed, left.moveOnto spliced 0 between = (.ok moved, changed) ∧
        Holds blockSizes changed ((moved.2, plain.append plainLeft.samples) :: rest) := by
    obtain ⟨moved, changed, isMoved, movedHolds⟩ := moveOnto_simulates leftHolds 0
    refine ⟨moved, changed, isMoved, ?_⟩
    rw [List.drop_zero] at movedHolds
    exact movedHolds.dropEmpty rfl
  rw [nextDescribes.start, describes.stop_eq, Trace.spliceOnto_of_disjoint isError disjoint]
  by_cases meets : plainNext.start ≤ plain.stop
  · have positive := Extent.pos_of_disjointness isError disjoint nextDescribes.nonneg ordered meets
    obtain ⟨plainLeft, isPlainLeft, _⟩ :=
      Trace.dropBefore_spec positive (show plainNext.start ≤ plain.stop + 1 by omega)
    have dropped := dropBefore_simulates swapped (plain.stop + 1)
    rw [isPlainLeft] at dropped
    obtain ⟨left, between, isLeft, leftHolds⟩ := dropped
    obtain ⟨moved, changed, isMoved, movedHolds⟩ := finish left plainLeft between leftHolds
    refine ⟨left, between, moved, changed, ?_, isMoved, plain.append plainLeft.samples, ?_, rfl,
      movedHolds⟩
    · rw [if_pos meets]
      exact isLeft
    · rw [if_pos meets, isPlainLeft]
      rfl
  · obtain ⟨moved, changed, isMoved, movedHolds⟩ := finish next plainNext pools swapped
    refine ⟨next, pools, moved, changed, ?_, isMoved, plain.append plainNext.samples, ?_, rfl,
      movedHolds⟩
    · rw [if_neg meets]
      rfl
    · exact if_neg meets

/-- Adding traces in the order of their starts to a spliced one. -/
theorem spliceOnto_simulates (later : List (StoredTrace × Trace)) {spliced : StoredTrace}
    {plain : Trace} (holds : Holds blockSizes pools ((spliced, plain) :: (later ++ rest)))
    (sorted : later.Pairwise fun first second => first.2.start ≤ second.2.start)
    (ordered : ∀ entry ∈ later, plain.start ≤ entry.2.start) :
    ∃ result changed, spliced.spliceOnto (later.map Prod.fst) pools = (.ok result, changed) ∧
      HoldsSpliced blockSizes rest changed result
        ((later.map Prod.snd).foldlM Trace.spliceOnto plain) := by
  induction later generalizing spliced plain pools with
  | nil => exact ⟨.ok spliced, pools, rfl, .spliced spliced plain holds⟩
  | cons entry later ih =>
      obtain ⟨next, plainNext⟩ := entry
      have swapped := holds.perm (List.Perm.swap (next, plainNext) (spliced, plain) (later ++ rest))
      have laterSorted := (List.pairwise_cons.mp sorted).2
      have nextOrdered : ∀ other ∈ later, plainNext.start ≤ other.2.start :=
        (List.pairwise_cons.mp sorted).1
      have splicedOrdered : ∀ other ∈ later, plain.start ≤ other.2.start :=
        fun other member => ordered other (List.mem_cons_of_mem _ member)
      rw [List.map_cons, List.map_cons, List.foldlM_cons, spliceOnto,
        holds.describes_head.extent_eq, swapped.describes_head.extent_eq]
      cases isPlanned : plainNext.extent.joinPlan plain.extent Tolerance.standard with
      | ok plan =>
          obtain ⟨joined, between, isJoined, joinedHolds⟩ := applyPlan_simulates swapped plan
          have joinedOrdered : ∀ other ∈ later,
              (plainNext.applyPlan plain plan).target.start ≤ other.2.start := by
            intro other member
            rcases Trace.start_applyPlan plainNext plain plan with sameStart | sameStart
            · rw [sameStart]
              exact nextOrdered other member
            · rw [sameStart]
              exact splicedOrdered other member
          dsimp only
          rw [Process.bind_of_ok isJoined, Trace.spliceOnto_of_plan isPlanned]
          exact ih (joinedHolds.dropEmpty (Trace.source_applyPlan isPlanned)) laterSorted
            joinedOrdered
      | error error =>
          dsimp only
          by_cases disjoint : Trace.isDisjointness error = true
          · obtain ⟨left, between, moved, changed, isLeft, isMoved, longer, isPlain, sameStart,
              movedHolds⟩ := spliceApart_simulates holds (ordered _ List.mem_cons_self) isPlanned
                disjoint
            have continued := ih movedHolds laterSorted (by rw [sameStart]; exact splicedOrdered)
            rw [if_pos disjoint, isPlain]
            by_cases meets : next.start ≤ spliced.stop
            · rw [if_pos meets] at isLeft ⊢
              rw [Process.bind_of_ok isLeft, Process.bind_of_ok isMoved]
              exact continued
            · rw [if_neg meets] at isLeft ⊢
              rw [Process.bind_of_ok isLeft, Process.bind_of_ok isMoved]
              exact continued
          · have splicedLast : ((spliced, plain) :: ((next, plainNext) :: later ++ rest)).Perm
                ((next, plainNext) :: later ++ [(spliced, plain)] ++ rest) := by
              rw [List.append_assoc, List.singleton_append]
              exact List.perm_middle.symm
            obtain ⟨changed, areCleared, changedHolds⟩ :=
              clearAll_spec ((next, plainNext) :: later ++ [(spliced, plain)])
                (holds.perm splicedLast)
            rw [List.map_append] at areCleared
            refine ⟨.error error, changed, ?_, ?_⟩
            · rw [if_neg disjoint]
              exact Process.bind_of_ok areCleared _
            · rw [Trace.spliceOnto_of_mismatch isPlanned disjoint]
              exact .failed error changedHolds

/-- Pools hold what traces are combined to as the plain one is, or nothing of them if there is
nothing to combine or they could not be combined either way. -/
inductive HoldsCombined (blockSizes : List Nat) (rest : List (StoredTrace × Trace))
    (pools : List Pool) :
    Except TraceError (Option StoredTrace) → Except TraceError (Option Trace) → Prop where
  | nothing (holds : Holds blockSizes pools rest) :
      HoldsCombined blockSizes rest pools (.ok none) (.ok none)
  | combined (stored : StoredTrace) (plain : Trace)
      (holds : Holds blockSizes pools ((stored, plain) :: rest)) :
      HoldsCombined blockSizes rest pools (.ok (some stored)) (.ok (some plain))
  | failed (error : TraceError) (holds : Holds blockSizes pools rest) :
      HoldsCombined blockSizes rest pools (.error error) (.error error)

/-- Traces without samples may be left out. -/
theorem holds_filter_nonempty {entries : List (StoredTrace × Trace)}
    (holds : Holds blockSizes pools (entries ++ rest)) :
    Holds blockSizes pools ((entries.filter fun entry => entry.2.samples ≠ []) ++ rest) := by
  induction entries generalizing rest with
  | nil => exact holds
  | cons entry later ih =>
      by_cases isEmpty : entry.2.samples = []
      · rw [List.filter_cons_of_neg (by simpa using isEmpty)]
        exact ih (holds.dropEmpty isEmpty)
      · rw [List.filter_cons_of_pos (by simpa using isEmpty)]
        have middle : (later ++ entry :: rest).Perm (entry :: (later ++ rest)) := List.perm_middle
        exact (ih (holds.perm middle.symm)).perm List.perm_middle

/-- Stored and plain traces are in the same order of starts. -/
theorem exists_sorted (entries : List (StoredTrace × Trace))
    (describes : ∀ entry ∈ entries, entry.1.Describes entry.2) :
    ∃ sorted : List (StoredTrace × Trace), sorted.Perm entries ∧
      (entries.map Prod.fst).mergeSort startsBy = sorted.map Prod.fst ∧
      (entries.map Prod.snd).mergeSort Trace.startsBy = sorted.map Prod.snd ∧
      sorted.Pairwise fun first second => first.2.start ≤ second.2.start := by
  let byStart (first second : StoredTrace × Trace) : Bool := Trace.startsBy first.2 second.2
  have plainOrder : (entries.map Prod.snd).mergeSort Trace.startsBy =
      (entries.mergeSort byStart).map Prod.snd := by
    refine (List.map_mergeSort ?_).symm
    exact fun _ _ _ _ => rfl
  refine ⟨entries.mergeSort byStart, List.mergeSort_perm entries byStart, ?_, plainOrder, ?_⟩
  · refine (List.map_mergeSort ?_).symm
    intro first isFirst second isSecond
    simp [byStart, Trace.startsBy, startsBy, (describes first isFirst).start,
      (describes second isSecond).start]
  · have inOrder := Trace.pairwise_startsBy (entries.map Prod.snd)
    rw [plainOrder, List.pairwise_map] at inOrder
    exact inOrder

theorem splice_simulates (entries : List (StoredTrace × Trace))
    (holds : Holds blockSizes pools (entries ++ rest)) :
    ∃ result changed, splice (entries.map Prod.fst) pools = (.ok result, changed) ∧
      HoldsCombined blockSizes rest changed result (Trace.splice (entries.map Prod.snd)) := by
  have describes : ∀ entry ∈ entries, entry.1.Describes entry.2 :=
    fun entry member => holds.describes entry (List.mem_append_left rest member)
  have sameChoice : (entries.map Prod.fst).filter (fun trace => trace.length ≠ 0) =
      (entries.filter fun entry => entry.2.samples ≠ []).map Prod.fst := by
    rw [List.filter_map]
    congr 1
    apply List.filter_congr
    intro entry member
    simp [(describes entry member).length]
  have plainChoice : (entries.map Prod.snd).filter (fun trace => trace.samples ≠ []) =
      (entries.filter fun entry => entry.2.samples ≠ []).map Prod.snd := List.filter_map
  have chosenHolds := holds_filter_nonempty holds
  generalize (entries.filter fun entry => entry.2.samples ≠ []) = chosen at *
  obtain ⟨sorted, same, storedOrder, plainOrder, inOrder⟩ := exists_sorted chosen
    fun entry member => chosenHolds.describes entry (List.mem_append_left rest member)
  have sortedHolds := chosenHolds.perm (same.symm.append_right rest)
  simp only [splice, Trace.splice]
  rw [sameChoice, plainChoice, storedOrder, plainOrder]
  cases sorted with
  | nil => exact ⟨.ok none, pools, rfl, .nothing sortedHolds⟩
  | cons first later =>
      obtain ⟨result, changed, isResult, resultHolds⟩ := spliceOnto_simulates later sortedHolds
        (List.pairwise_cons.mp inOrder).2 (List.pairwise_cons.mp inOrder).1
      refine ⟨result.map some, changed, ?_, ?_⟩
      · rw [List.map_cons]
        exact Process.map_of_ok isResult (Except.map some)
      · rw [List.map_cons]
        dsimp only
        generalize (later.map Prod.snd).foldlM Trace.spliceOnto first.2 = plainResult
          at resultHolds ⊢
        cases resultHolds with
        | spliced spliced plain splicedHolds => exact .combined spliced plain splicedHolds
        | failed error restHolds => exact .failed error restHolds

end StoredTrace

end Waveform
