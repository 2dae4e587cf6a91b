import Waveform.Proofs.Storage.Splicing
import Waveform.Proofs.Workbench.Naming
import Waveform.Workbench.PlainWorkbench
import Waveform.Workbench.StoredWorkbench

/-!
# Workbenches of stored and of plain traces

A workbench of stored traces mirrors one of plain traces if its pools hold, under the same
names, the same traces. Every command then gets the same answer on both, and they mirror each
other afterwards.
-/

namespace Waveform

/-- Whether pools hold, under the same names, what plain traces are. -/
def Mirrors (blockSizes : List Nat) (stored : Named StoredTrace) (plain : Named Trace)
    (pools : List Pool) : Prop :=
  ∃ entries : Named (StoredTrace × Trace), entries.Distinct ∧
    stored = entries.mapValues Prod.fst ∧ plain = entries.mapValues Prod.snd ∧
    Holds blockSizes pools (entries.map Prod.snd)

/-- Whether a command comes to the same answer and to traces that mirror each other. -/
def MirrorsEffect (blockSizes : List Nat) (effect : StoredWorkbench.Effect)
    (plainEffect : PlainWorkbench.Effect) (pools : List Pool) : Prop :=
  effect.1 = plainEffect.1 ∧ Mirrors blockSizes effect.2 plainEffect.2 pools

/-- Whether a command names a pool that exists, if it names one. -/
def Command.FitsPools (count : Nat) : Command → Prop
  | .create _ pool _ => pool < count
  | _ => True

section

variable {blockSizes : List Nat} {stored : Named StoredTrace} {plain : Named Trace}
  {pools : List Pool} {entries : Named (StoredTrace × Trace)} {name : String}

/-- A trace that is found is held beside the others. -/
theorem holds_of_find? (distinct : entries.Distinct)
    (holds : Holds blockSizes pools (entries.map Prod.snd)) {entry : StoredTrace × Trace}
    (found : entries.find? name = some entry) :
    Holds blockSizes pools (entry :: (entries.remove name).map Prod.snd) :=
  holds.perm ((Named.perm_of_find? distinct found).map Prod.snd)

/-- A trace that is held beside the others may be put under a name. -/
theorem mirrors_put (distinct : entries.Distinct) (entry : StoredTrace × Trace)
    (holds : Holds blockSizes pools (entry :: (entries.remove name).map Prod.snd)) :
    Mirrors blockSizes ((entries.mapValues Prod.fst).put name entry.1)
      ((entries.mapValues Prod.snd).put name entry.2) pools := by
  refine ⟨entries.put name entry, distinct.put name entry, ?_, ?_, holds⟩
  · exact Named.put_mapValues Prod.fst entries name entry
  · exact Named.put_mapValues Prod.snd entries name entry

/-- What a workbench finds under a name, the one that it mirrors finds as well. -/
theorem find_simulates (entries : Named (StoredTrace × Trace)) (name : String)
    (pools : List Pool) :
    Simulates (StoredWorkbench.find (entries.mapValues Prod.fst) name) pools
      (PlainWorkbench.find (entries.mapValues Prod.snd) name)
      fun trace plainTrace changed =>
        entries.find? name = some (trace, plainTrace) ∧ changed = pools := by
  unfold StoredWorkbench.find PlainWorkbench.find
  rw [Named.find?_mapValues, Named.find?_mapValues]
  cases found : entries.find? name with
  | none => rfl
  | some entry => exact ⟨entry.1, pools, rfl, rfl, rfl⟩

/-- Asking about a trace simulates asking about the plain one, if the question does. -/
theorem ask_simulates (mirrors : Mirrors blockSizes stored plain pools) (name : String)
    {question : StoredTrace → Stored Reply} {plainQuestion : Trace → Except TraceError Reply}
    (simulates : ∀ trace plainTrace rest, Holds blockSizes pools ((trace, plainTrace) :: rest) →
      Simulates (question trace) pools ((plainQuestion plainTrace).mapError .trace)
        fun result value changed => result = value ∧ changed = pools) :
    Simulates (StoredWorkbench.ask stored name question) pools
      (PlainWorkbench.ask plain name plainQuestion) (MirrorsEffect blockSizes) := by
  obtain ⟨entries, distinct, rfl, rfl, holds⟩ := mirrors
  simp only [StoredWorkbench.ask, PlainWorkbench.ask]
  apply (find_simulates entries name pools).bind (fun _ _ _ found => found.2)
  rintro trace plainTrace ⟨found, _⟩
  apply (simulates trace plainTrace _ (holds_of_find? distinct holds found)).andReturn
  rintro result value unchanged ⟨rfl, rfl⟩
  exact ⟨rfl, entries, distinct, rfl, rfl, holds⟩

/-- Changing a trace simulates changing the plain one, if the operation does. -/
theorem change_simulates (mirrors : Mirrors blockSizes stored plain pools) (name : String)
    {operation : StoredTrace → Stored StoredTrace}
    {plainOperation : Trace → Except TraceError Trace}
    (simulates : ∀ trace plainTrace rest, Holds blockSizes pools ((trace, plainTrace) :: rest) →
      Simulates (operation trace) pools ((plainOperation plainTrace).mapError .trace)
        fun new plainNew changed => Holds blockSizes changed ((new, plainNew) :: rest)) :
    Simulates (StoredWorkbench.change stored name operation) pools
      (PlainWorkbench.change plain name plainOperation) (MirrorsEffect blockSizes) := by
  obtain ⟨entries, distinct, rfl, rfl, holds⟩ := mirrors
  simp only [StoredWorkbench.change, PlainWorkbench.change]
  apply (find_simulates entries name pools).bind (fun _ _ _ found => found.2)
  rintro trace plainTrace ⟨found, _⟩
  apply (simulates trace plainTrace _ (holds_of_find? distinct holds found)).andReturn
  intro new plainNew changed newHolds
  exact ⟨rfl, mirrors_put distinct (new, plainNew) newHolds⟩

/-- Taking a trace away leaves nothing of it in the pools, and all that they hold besides. -/
theorem release_spec (distinct : entries.Distinct) (rest : List (StoredTrace × Trace))
    (holds : Holds blockSizes pools (rest ++ entries.map Prod.snd)) (name : String) :
    ∃ changed, StoredWorkbench.release (entries.mapValues Prod.fst) name pools = (.ok (), changed) ∧
      Holds blockSizes changed (rest ++ (entries.remove name).map Prod.snd) := by
  simp only [StoredWorkbench.release]
  rw [Named.find?_mapValues]
  cases found : entries.find? name with
  | none =>
      rw [Named.remove_of_find?_none found]
      exact ⟨pools, rfl, holds⟩
  | some entry =>
      have same := ((Named.perm_of_find? distinct found).map Prod.snd).append_left rest
      obtain ⟨cleared, changed, isCleared, clearedHolds⟩ :=
        StoredTrace.clear_simulates (holds.perm (same.trans List.perm_middle))
      refine ⟨changed, ?_, clearedHolds.dropEmpty rfl⟩
      exact Process.map_of_ok isCleared (Function.const StoredTrace ())

/-- A trace that is held beside others may be put under a name in place of the one that was
there. -/
theorem replace_spec (distinct : entries.Distinct) (entry : StoredTrace × Trace)
    (holds : Holds blockSizes pools (entry :: entries.map Prod.snd)) (name : String) :
    ∃ changed, StoredWorkbench.replace (entries.mapValues Prod.fst) name entry.1 pools =
        (.ok ((entries.mapValues Prod.fst).put name entry.1), changed) ∧
      Mirrors blockSizes ((entries.mapValues Prod.fst).put name entry.1)
        ((entries.mapValues Prod.snd).put name entry.2) changed := by
  obtain ⟨changed, isReleased, releasedHolds⟩ := release_spec distinct [entry] holds name
  refine ⟨changed, ?_, mirrors_put distinct entry releasedHolds⟩
  simp only [StoredWorkbench.replace]
  rw [Process.bind_of_ok isReleased]
  rfl

/-- A new trace may be put under a name. -/
theorem replaceNew_simulates (mirrors : Mirrors blockSizes stored plain pools) (name : String)
    {trace : StoredTrace} {plainTrace : Trace} (inside : trace.pool < blockSizes.length)
    (noBlocks : trace.blocks = []) (isEmpty : plainTrace.samples = [])
    (describes : trace.Describes plainTrace) (reply : Except StorageError Reply) :
    Simulates (do return (reply, ← StoredWorkbench.replace stored name trace)) pools
      (.ok (reply, plain.put name plainTrace)) (MirrorsEffect blockSizes) := by
  obtain ⟨entries, distinct, rfl, rfl, holds⟩ := mirrors
  have isPool : trace.pool < pools.length := by
    rw [← List.length_map Pool.blockSize, holds.sizes]
    exact inside
  obtain ⟨changed, isReplaced, mirrored⟩ := replace_spec distinct (trace, plainTrace)
    (holds.addEmpty isPool noBlocks isEmpty describes) name
  refine ⟨(reply, (entries.mapValues Prod.fst).put name trace), changed, ?_, rfl, mirrored⟩
  rw [Process.bind_of_ok isReplaced]
  rfl

theorem create_simulates (mirrors : Mirrors blockSizes stored plain pools) (name : String)
    {pool : Nat} (inside : pool < blockSizes.length) (origin : Option (Int × Float)) :
    Simulates (StoredWorkbench.perform stored (.create name pool origin)) pools
      (PlainWorkbench.perform plain (.create name pool origin)) (MirrorsEffect blockSizes) := by
  cases origin with
  | none =>
      rw [StoredWorkbench.perform, PlainWorkbench.perform]
      exact replaceNew_simulates mirrors name inside rfl rfl ⟨rfl, rfl, rfl, rfl, le_rfl⟩
        (.ok .done)
  | some origin =>
      obtain ⟨start, rate⟩ := origin
      rw [StoredWorkbench.perform, PlainWorkbench.perform]
      simp only [Trace.ofRate, StoredTrace.setRate, Trace.setRate]
      cases isLegal : SampleRate.interval? rate with
      | none => rfl
      | some interval =>
          have positive := SampleRate.pos_of_interval? isLegal
          exact replaceNew_simulates mirrors name inside rfl rfl ⟨rfl, rfl, rfl, rfl, positive.le⟩
            (.ok .done)

theorem drop_simulates (mirrors : Mirrors blockSizes stored plain pools) (name : String) :
    Simulates (StoredWorkbench.perform stored (.drop name)) pools
      (PlainWorkbench.perform plain (.drop name)) (MirrorsEffect blockSizes) := by
  obtain ⟨entries, distinct, rfl, rfl, holds⟩ := mirrors
  obtain ⟨changed, isReleased, releasedHolds⟩ := release_spec distinct [] holds name
  rw [StoredWorkbench.perform, PlainWorkbench.perform]
  refine ⟨(.ok .done, (entries.mapValues Prod.fst).remove name), changed, ?_, rfl,
    entries.remove name, distinct.remove name, ?_, ?_, releasedHolds⟩
  · rw [Process.bind_of_ok isReleased]
    rfl
  · exact Named.remove_mapValues Prod.fst entries name
  · exact Named.remove_mapValues Prod.snd entries name

theorem join_simulates (mirrors : Mirrors blockSizes stored plain pools)
    (source target : String) (tolerance : Tolerance) :
    Simulates (StoredWorkbench.perform stored (.join source target tolerance)) pools
      (PlainWorkbench.perform plain (.join source target tolerance))
      (MirrorsEffect blockSizes) := by
  obtain ⟨entries, distinct, rfl, rfl, holds⟩ := mirrors
  rw [StoredWorkbench.perform, PlainWorkbench.perform, Named.remove_mapValues,
    Named.remove_mapValues]
  apply (find_simulates entries source pools).bind (fun _ _ _ found => found.2)
  rintro sourceTrace plainSource ⟨isSource, _⟩
  apply (find_simulates (entries.remove source) target pools).bind (fun _ _ _ found => found.2)
  rintro targetTrace plainTarget ⟨isTarget, _⟩
  have bothHeld := holds.perm (((Named.perm_of_find? distinct isSource).trans
    ((Named.perm_of_find? (distinct.remove source) isTarget).cons _)).map Prod.snd)
  apply (StoredTrace.joinTo_simulates bothHeld tolerance).andReturn
  intro joined plainJoined changed joinedHolds
  refine ⟨rfl, ?_⟩
  have different : source ≠ target := by
    rintro rfl
    have member := List.mem_map_of_mem (f := Prod.fst) (Named.mem_of_find? isTarget)
    exact Named.notMem_remove entries source member
  have sourcePut : (entries.mapValues Prod.fst).put source joined.source =
      (entries.put source (joined.source, plainJoined.source)).mapValues Prod.fst :=
    Named.put_mapValues Prod.fst entries source (joined.source, plainJoined.source)
  have plainPut : (entries.mapValues Prod.snd).put source plainJoined.source =
      (entries.put source (joined.source, plainJoined.source)).mapValues Prod.snd :=
    Named.put_mapValues Prod.snd entries source (joined.source, plainJoined.source)
  rw [sourcePut, plainPut]
  apply mirrors_put (distinct.put source _) (joined.target, plainJoined.target)
  have left : (entries.put source (joined.source, plainJoined.source)).remove target =
      (source, (joined.source, plainJoined.source)) :: (entries.remove source).remove target :=
    List.filter_cons_of_pos (by simpa using different)
  rw [left]
  exact joinedHolds.perm (List.Perm.swap _ _ _)

theorem compare_simulates (mirrors : Mirrors blockSizes stored plain pools)
    (first second : String) :
    Simulates (StoredWorkbench.perform stored (.compare first second)) pools
      (PlainWorkbench.perform plain (.compare first second)) (MirrorsEffect blockSizes) := by
  obtain ⟨entries, distinct, rfl, rfl, holds⟩ := mirrors
  rw [StoredWorkbench.perform, PlainWorkbench.perform]
  apply (find_simulates entries first pools).bind (fun _ _ _ found => found.2)
  rintro firstTrace plainFirst ⟨isFirst, _⟩
  apply (find_simulates entries second pools).andReturn
  rintro secondTrace plainSecond _ ⟨isSecond, rfl⟩
  have firstDescribes := (holds_of_find? distinct holds isFirst).describes_head
  have secondDescribes := (holds_of_find? distinct holds isSecond).describes_head
  rw [firstDescribes.extent_eq, secondDescribes.extent_eq]
  exact ⟨rfl, entries, distinct, rfl, rfl, holds⟩

/-- What a workbench takes off under some names, the one that it mirrors takes off as well. -/
theorem takeAll_simulates (entries : Named (StoredTrace × Trace)) (names : List String)
    (pools : List Pool) :
    Simulates (StoredWorkbench.takeAll (entries.mapValues Prod.fst) names) pools
      (((entries.mapValues Prod.snd).takeAll names).mapError .noTrace)
      fun taken plainTaken changed => ∃ chosen others,
        entries.takeAll names = .ok (chosen, others) ∧
        taken = (chosen.map Prod.fst, others.mapValues Prod.fst) ∧
        plainTaken = (chosen.map Prod.snd, others.mapValues Prod.snd) ∧ changed = pools := by
  unfold StoredWorkbench.takeAll
  rw [Named.takeAll_mapValues, Named.takeAll_mapValues]
  cases entries.takeAll names with
  | error missing => rfl
  | ok reached => exact ⟨_, pools, rfl, reached.1, reached.2, rfl, rfl, rfl, rfl⟩

theorem splice_simulates (mirrors : Mirrors blockSizes stored plain pools) (name : String)
    (sources : List String) :
    Simulates (StoredWorkbench.perform stored (.splice name sources)) pools
      (PlainWorkbench.perform plain (.splice name sources)) (MirrorsEffect blockSizes) := by
  obtain ⟨entries, distinct, rfl, rfl, holds⟩ := mirrors
  rw [StoredWorkbench.perform, PlainWorkbench.perform]
  apply (takeAll_simulates entries sources pools).bind
  case keeps =>
    rintro _ _ _ ⟨_, _, _, _, _, unchanged⟩
    exact unchanged
  rintro _ _ ⟨chosen, others, areTaken, rfl, rfl, _⟩
  dsimp only
  obtain ⟨othersDistinct, same⟩ := Named.perm_of_takeAll distinct areTaken
  obtain ⟨result, changed, isResult, resultHolds⟩ :=
    StoredTrace.splice_simulates chosen (holds.perm same)
  generalize Trace.splice (chosen.map Prod.snd) = plainResult at resultHolds ⊢
  have left (othersHolds : Holds blockSizes changed (others.map Prod.snd)) :
      Mirrors blockSizes (others.mapValues Prod.fst) (others.mapValues Prod.snd) changed :=
    ⟨others, othersDistinct, rfl, rfl, othersHolds⟩
  cases resultHolds with
  | nothing othersHolds =>
      exact simulates_of_ok (Process.bind_of_ok isResult _) ⟨rfl, left othersHolds⟩
  | combined spliced plain splicedHolds =>
      obtain ⟨final, isReplaced, mirrored⟩ :=
        replace_spec othersDistinct (spliced, plain) splicedHolds name
      refine ⟨(.ok (.flag true), (others.mapValues Prod.fst).put name spliced), final, ?_, rfl,
        mirrored⟩
      rw [Process.bind_of_ok isResult]
      exact (Process.bind_of_ok isReplaced _).trans rfl
  | failed error othersHolds =>
      exact simulates_of_ok (Process.bind_of_ok isResult _) ⟨rfl, left othersHolds⟩

/-! ## All commands -/

/-- Reading simulates reading, whatever is answered with what is read. -/
theorem reading_simulates {α : Type} {operation : Stored α} {outcome : Except TraceError α}
    (simulates : Simulates operation pools (outcome.mapError .trace)
      fun result value changed => result = value ∧ changed = pools) (reply : α → Reply) :
    Simulates (reply <$> operation) pools ((reply <$> outcome).mapError .trace)
      fun result value changed => result = value ∧ changed = pools := by
  cases outcome with
  | ok value =>
      obtain ⟨result, changed, isResult, same, unchanged⟩ := simulates
      exact ⟨reply result, changed, Process.map_of_ok isResult reply, congrArg reply same,
        unchanged⟩
  | error error =>
      change operation pools = (.error (.trace error), pools) at simulates
      exact Process.map_of_error simulates reply

/-- Every command comes to the same on workbenches that mirror each other. -/
theorem perform_simulates (mirrors : Mirrors blockSizes stored plain pools) (command : Command)
    (fits : command.FitsPools blockSizes.length) :
    Simulates (StoredWorkbench.perform stored command) pools
      (PlainWorkbench.perform plain command) (MirrorsEffect blockSizes) := by
  cases command with
  | create name pool origin => exact create_simulates mirrors name fits origin
  | setStart name start =>
      rw [StoredWorkbench.perform, PlainWorkbench.perform]
      apply change_simulates mirrors name
      intro trace plainTrace rest holds
      exact simulates_pure (StoredTrace.setStart_holds holds start)
  | setRate name rate =>
      rw [StoredWorkbench.perform, PlainWorkbench.perform]
      apply change_simulates mirrors name
      intro trace plainTrace rest holds
      exact StoredTrace.setRate_simulates holds rate
  | append name samples =>
      rw [StoredWorkbench.perform, PlainWorkbench.perform]
      apply change_simulates mirrors name
      intro trace plainTrace rest holds
      exact StoredTrace.append_simulates holds samples
  | extend name samples offset length =>
      rw [StoredWorkbench.perform, PlainWorkbench.perform]
      apply change_simulates mirrors name
      intro trace plainTrace rest holds
      exact StoredTrace.extend_simulates holds samples offset length
  | slice name index count =>
      rw [StoredWorkbench.perform, PlainWorkbench.perform]
      apply ask_simulates mirrors name
      intro trace plainTrace rest holds
      exact reading_simulates (StoredTrace.slice_simulates holds index count) .samples
  | sliceFrom name time count =>
      rw [StoredWorkbench.perform, PlainWorkbench.perform]
      apply ask_simulates mirrors name
      intro trace plainTrace rest holds
      exact reading_simulates (StoredTrace.sliceFrom_simulates holds time count) .samples
  | sliceBetween name first last =>
      rw [StoredWorkbench.perform, PlainWorkbench.perform]
      apply ask_simulates mirrors name
      intro trace plainTrace rest holds
      exact reading_simulates (StoredTrace.sliceBetween_simulates holds first last) .samples
  | samples name =>
      rw [StoredWorkbench.perform, PlainWorkbench.perform]
      apply ask_simulates mirrors name
      intro trace plainTrace rest holds
      exact simulates_of_ok (Process.map_of_ok (StoredTrace.samples_eq holds) Reply.samples)
        ⟨rfl, rfl⟩
  | crop name first last =>
      rw [StoredWorkbench.perform, PlainWorkbench.perform]
      apply change_simulates mirrors name
      intro trace plainTrace rest holds
      exact StoredTrace.crop_simulates holds first last
  | dropBefore name first =>
      rw [StoredWorkbench.perform, PlainWorkbench.perform]
      apply change_simulates mirrors name
      intro trace plainTrace rest holds
      exact StoredTrace.dropBefore_simulates holds first
  | dropAfter name last =>
      rw [StoredWorkbench.perform, PlainWorkbench.perform]
      apply change_simulates mirrors name
      intro trace plainTrace rest holds
      exact StoredTrace.dropAfter_simulates holds last
  | clear name =>
      rw [StoredWorkbench.perform, PlainWorkbench.perform]
      apply change_simulates mirrors name
      intro trace plainTrace rest holds
      exact StoredTrace.clear_simulates holds
  | drop name => exact drop_simulates mirrors name
  | digest name =>
      rw [StoredWorkbench.perform, PlainWorkbench.perform]
      apply ask_simulates mirrors name
      intro trace plainTrace rest holds
      exact simulates_of_ok (Process.map_of_ok (StoredTrace.digest_eq holds) Reply.text) ⟨rfl, rfl⟩
  | covers name first last =>
      rw [StoredWorkbench.perform, PlainWorkbench.perform]
      apply ask_simulates mirrors name
      intro trace plainTrace rest holds
      rw [holds.describes_head.extent_eq]
      exact simulates_pure ⟨rfl, rfl⟩
  | describe name =>
      rw [StoredWorkbench.perform, PlainWorkbench.perform]
      apply ask_simulates mirrors name
      intro trace plainTrace rest holds
      rw [holds.describes_head.extent_eq]
      exact simulates_pure ⟨rfl, rfl⟩
  | join source target tolerance => exact join_simulates mirrors source target tolerance
  | compare first second => exact compare_simulates mirrors first second
  | splice name sources => exact splice_simulates mirrors name sources

end

end Waveform
