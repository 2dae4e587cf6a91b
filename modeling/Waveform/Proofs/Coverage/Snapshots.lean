import Waveform.Proofs.Coverage.MixedIntervals
import Waveform.Proofs.Monitor.Watching

/-!
# Snapshots of a search

A search tells how many segments it is done with: once for the first channel, and for every other
one after each segment that its sweep passes and again at its end. Whichever way windows and
segments overlap, a sweep is done with every segment of its channel exactly once. So the counts
never fall, never exceed the number of all segments, and reach it when all channels have been swept.
The last snapshot, and no other one, tells that the search is over.
-/

namespace Waveform

namespace SearchProgress

/-- The snapshots that tell some counts, each out of so many segments. -/
def telling (total : Nat) (counts : List Nat) : List SearchProgress :=
  counts.map fun count => .running count total

variable {total : Nat} {counts : List Nat}

theorem telling_append (total : Nat) (counts more : List Nat) :
    telling total (counts ++ more) = telling total counts ++ telling total more :=
  List.map_append

/-- No snapshot that tells a count shows a search that is over. -/
theorem percent_telling_lt : ∀ snapshot ∈ telling total counts, snapshot.percent < 100 := by
  intro snapshot member
  obtain ⟨count, _, rfl⟩ := List.mem_map.mp member
  exact percentOf_lt count total

/-- Snapshots that tell rising counts show a rising share of the segments. -/
theorem percent_telling_rising (rising : counts.Pairwise (· ≤ ·)) :
    (telling total counts).Pairwise fun earlier later => earlier.percent ≤ later.percent :=
  List.pairwise_map.mpr (rising.imp fun isMore => percentOf_mono isMore total)

end SearchProgress

/-- A queue with room for all snapshots of a search keeps them all. -/
theorem SearchOutcome.kept_of_room (outcome : SearchOutcome) {capacity : Nat}
    (hasRoom : outcome.published.length ≤ capacity) :
    outcome.kept (some capacity) = outcome.published := by
  have isKept : outcome.kept (some capacity) =
      (RecentQueue.pushAll (.empty capacity) outcome.published).items := rfl
  have noneFalls : ([] ++ outcome.published).length - capacity = 0 := Nat.sub_eq_zero_of_le hasRoom
  rw [isKept, RecentQueue.items_pushAll]
  exact congrArg outcome.published.drop noneFalls

namespace SearchState

/-! ## How a state advances -/

/-- Whether a search has come from one state to another by being done with `count` more segments and
telling some counts on its way. -/
structure Advances (earlier later : SearchState) (count : Nat) (told : List Nat) : Prop where
  total : later.total = earlier.total
  patience : later.patience = earlier.patience
  processed : later.processed = earlier.processed + count
  published : later.published = earlier.published ++ SearchProgress.telling earlier.total told
  rising : told.Pairwise (· ≤ ·)
  since : ∀ mark ∈ told, earlier.processed ≤ mark
  upTo : ∀ mark ∈ told, mark ≤ later.processed

variable {earlier between later : SearchState} {count further : Nat} {told more : List Nat}

theorem Advances.processed_le (advances : earlier.Advances later count told) :
    earlier.processed ≤ later.processed :=
  advances.processed ▸ Nat.le_add_right _ _

/-- The counts of two stretches of a search rise together: none of the first exceeds the one at
which the second sets out. -/
theorem Advances.trans (first : earlier.Advances between count told)
    (second : between.Advances later further more) :
    earlier.Advances later (count + further) (told ++ more) where
  total := second.total.trans first.total
  patience := second.patience.trans first.patience
  processed := by rw [second.processed, first.processed, Nat.add_assoc]
  published := by
    rw [second.published, first.published, first.total, SearchProgress.telling_append,
      List.append_assoc]
  rising := by
    refine List.pairwise_append.mpr ⟨first.rising, second.rising, ?_⟩
    intro mark isEarlier other isLater
    exact (first.upTo mark isEarlier).trans (second.since other isLater)
  since := by
    intro mark member
    cases List.mem_append.mp member with
    | inl isEarlier => exact first.since mark isEarlier
    | inr isLater => exact first.processed_le.trans (second.since mark isLater)
  upTo := by
    intro mark member
    cases List.mem_append.mp member with
    | inl isEarlier => exact (first.upTo mark isEarlier).trans second.processed_le
    | inr isLater => exact second.upTo mark isLater

/-- The state when some more segments are done with. -/
def counting (state : SearchState) (count : Nat) : SearchState :=
  { state with processed := state.processed + count }

/-- The state when some more segments are done with and this has been told. -/
def reporting (state : SearchState) (count : Nat) : SearchState :=
  { state with
    processed := state.processed + count
    published := state.published ++ [.running (state.processed + count) state.total] }

/-- The state when a segment of another interval has been told of. -/
def failing (state : SearchState) (expected actual : Int) : SearchState :=
  { state with
    published := state.published ++
      [.failed ⟨.intervalMismatch, mixedIntervalsMessage expected actual⟩] }

theorem advances_counting (state : SearchState) (count : Nat) :
    state.Advances (state.counting count) count [] where
  total := rfl
  patience := rfl
  processed := rfl
  published := (List.append_nil _).symm
  rising := .nil
  since := by simp
  upTo := by simp

theorem advances_refl (state : SearchState) : state.Advances state 0 [] :=
  state.advances_counting 0

theorem advances_reporting (state : SearchState) (count : Nat) :
    state.Advances (state.reporting count) count [state.processed + count] where
  total := rfl
  patience := rfl
  processed := rfl
  published := rfl
  rising := List.pairwise_singleton _ _
  since := by simp
  upTo := by simp [reporting]

/-- How a search that nobody cancels leaves a state if there are `count` segments for it: it is done
with all of them, or it stops at one of another interval, which at least is not among those that it
is done with. -/
inductive Leaves {α : Type} (state : SearchState) (count : Nat) (told : List Nat) :
    Except SearchHalt α × SearchState → Prop where
  | found {value : α} {later : SearchState} (advances : state.Advances later count told) :
      Leaves state count told (.ok value, later)
  | mixed {later : SearchState} {processed : Nat} (expected actual : Int)
      (advances : state.Advances later processed told) (unfinished : processed < count) :
      Leaves state count told
        (.error (.mixedIntervals expected actual), later.failing expected actual)

variable {α : Type} {result : Except SearchHalt α × SearchState}

theorem Leaves.after (leaves : between.Leaves further more result)
    (advances : earlier.Advances between count told) :
    earlier.Leaves (count + further) (told ++ more) result := by
  cases leaves with
  | found goesOn => exact .found (advances.trans goesOn)
  | mixed expected actual goesOn unfinished =>
      exact .mixed expected actual (advances.trans goesOn) (Nat.add_lt_add_left unfinished count)

/-- How a sweep over `count` segments leaves a state: it tells at most once for each of them and
once more at its end, then that it is done with all of them. -/
structure Sweeps (state : SearchState) (count : Nat) (told : List Nat)
    (result : Except SearchHalt α × SearchState) : Prop where
  leaves : state.Leaves count told result
  few : told.length ≤ count + 1
  upToDate : result.1.isOk → state.processed + count ∈ told

theorem Sweeps.after (sweeps : between.Sweeps further more result)
    (advances : earlier.Advances between count told) (few : told.length ≤ count) :
    earlier.Sweeps (count + further) (told ++ more) result where
  leaves := sweeps.leaves.after advances
  few := by
    rw [List.length_append, Nat.add_assoc]
    exact Nat.add_le_add few sweeps.few
  upToDate isFound := by
    have isTold := sweeps.upToDate isFound
    rw [advances.processed, Nat.add_assoc] at isTold
    exact List.mem_append_right told isTold

end SearchState

namespace Search

open SearchState

/-! ## Sweeps -/

section Sweeps

variable {α β : Type} {expected : Int} {segment : Span} {segments : List Span} {count : Nat}

theorem run_bind (search : Search α) (next : α → Search β) (state : SearchState) :
    (search >>= next).run.run state =
      match search.run.run state with
      | (.ok value, later) => (next value).run.run later
      | (.error halt, later) => (.error halt, later) := by
  rw [ExceptT.run_bind, StateT.run_bind]
  rcases search.run.run state with ⟨_ | _, _⟩ <;> rfl

theorem run_requireInterval (expected : Int) (segment : Span) (state : SearchState) :
    (requireInterval expected segment).run.run state =
      if segment.interval = expected then (.ok (), state)
      else (.error (.mixedIntervals expected segment.interval),
        state.failing expected segment.interval) := by
  by_cases same : segment.interval = expected
  · rw [requireInterval, if_neg (not_not.mpr same), if_pos same]
    rfl
  · rw [requireInterval, if_pos same, if_neg same]
    rfl

/-- Whether a search that nobody cancels is a sweep over so many segments. -/
def Sweeps (search : Search α) (count : Nat) : Prop :=
  ∀ state : SearchState, state.patience = none →
    ∃ told, state.Sweeps count told (search.run.run state)

/-- To be done with all segments at once is a sweep over them. -/
theorem sweeps_report (count : Nat) (value : α) :
    Sweeps (do finish count; publishCount; return value) count := by
  intro state _
  exact ⟨[state.processed + count], .found (state.advances_reporting count),
    Nat.le_add_left 1 count, fun _ => List.mem_singleton_self _⟩

theorem Sweeps.afterFinish {next : Search α} (sweeps : next.Sweeps count) :
    Sweeps (do finish 1; next) (count + 1) := by
  intro state calm
  obtain ⟨told, isSwept⟩ := sweeps (state.counting 1) calm
  rw [Nat.add_comm]
  exact ⟨_, isSwept.after (state.advances_counting 1) (Nat.zero_le 1)⟩

theorem Sweeps.afterReport {next : Search α} (sweeps : next.Sweeps count) :
    Sweeps (do finish 1; publishCount; next) (count + 1) := by
  intro state calm
  obtain ⟨told, isSwept⟩ := sweeps (state.reporting 1) calm
  rw [Nat.add_comm]
  exact ⟨_, isSwept.after (state.advances_reporting 1) (Nat.le_refl 1)⟩

/-- A sweep may look at the interval of a segment before it is done with it. -/
theorem Sweeps.afterInterval {next : Search α} (sweeps : next.Sweeps count)
    (unfinished : 0 < count) :
    Sweeps (do requireInterval expected segment; next) count := by
  intro state calm
  rw [run_bind, run_requireInterval]
  by_cases same : segment.interval = expected
  · rw [if_pos same]
    exact sweeps state calm
  · rw [if_neg same]
    refine ⟨[], .mixed expected segment.interval state.advances_refl unfinished,
      Nat.zero_le _, ?_⟩
    intro isFound
    cases isFound

theorem Sweeps.afterIntervals {next : Search α} (sweeps : next.Sweeps count)
    (unfinished : segments.length ≤ count) :
    Sweeps (do segments.forM (requireInterval expected); next) count := by
  induction segments with
  | nil => exact sweeps
  | cons segment later ih =>
      have someLeft : later.length < count := unfinished
      rw [List.forM, bind_assoc]
      exact (ih someLeft.le).afterInterval (Nat.zero_lt_of_lt someLeft)

theorem Sweeps.afterLook {next : Search α} (sweeps : next.Sweeps count) (unfinished : 0 < count) :
    Sweeps (do haltIfCancelled; requireInterval expected segment; next) count := by
  intro state calm
  obtain ⟨total, processed, published, patience⟩ := state
  obtain rfl : patience = none := calm
  exact sweeps.afterInterval unfinished _ rfl

theorem Sweeps.andReturn {search : Search α} (sweeps : search.Sweeps count) (value : α → β) :
    Sweeps (do return value (← search)) count := by
  intro state calm
  obtain ⟨told, isSwept⟩ := sweeps state calm
  refine ⟨told, ?_⟩
  rw [run_bind]
  generalize search.run.run state = result at isSwept
  obtain ⟨leaves, few, upToDate⟩ := isSwept
  cases leaves with
  | found advances => exact ⟨.found advances, few, fun _ => upToDate rfl⟩
  | mixed expected actual advances unfinished =>
      refine ⟨.mixed expected actual advances unfinished, few, ?_⟩
      intro isFound
      cases isFound

/-- To take the segments of the first channel as windows is a sweep over them. -/
theorem sweeps_seed (expected : Int) (segments : List Span) :
    (seed expected segments).Sweeps segments.length := by
  induction segments with
  | nil => exact sweeps_report 0 []
  | cons segment later ih =>
      rw [seed]
      apply Sweeps.afterLook _ (Nat.succ_pos _)
      exact (ih.andReturn (segment :: ·)).afterFinish

theorem sweeps_skip (expected : Int) (segments : List Span) :
    (skip expected segments).Sweeps segments.length :=
  (sweeps_report segments.length []).afterIntervals (Nat.le_refl _)

/-- Narrowing is a sweep over the segments, whichever way they overlap the windows. -/
theorem sweeps_narrow (expected : Int) (windows segments : List Span) :
    (narrow expected windows segments).Sweeps segments.length := by
  -- A step that drops the segment counts it; one that drops the window alone counts nothing, and
  -- the segment is met again. What is left when the windows run out is counted at once.
  fun_induction Span.sweep windows segments with
  | case1 segments =>
      rw [narrow]
      exact sweeps_skip expected segments
  | case2 window windows =>
      rw [narrow]
      exact sweeps_skip expected []
  | case3 window windows segment segments before ih =>
      rw [narrow, if_pos before]
      exact ih.afterReport.afterLook (Nat.succ_pos _)
  | case4 window windows segment segments late before ih =>
      rw [narrow, if_neg late, if_pos before]
      exact ih.afterLook (Nat.succ_pos _)
  | case5 window windows segment segments late early shorter ih =>
      rw [narrow, if_neg late, if_neg early, if_pos shorter]
      apply Sweeps.afterLook _ (Nat.succ_pos _)
      apply Sweeps.afterReport
      exact ih.andReturn (window.meet segment :: ·)
  | case6 window windows segment segments late early notShorter longer ih =>
      rw [narrow, if_neg late, if_neg early, if_neg notShorter, if_pos longer]
      apply Sweeps.afterLook _ (Nat.succ_pos _)
      exact ih.andReturn (window.meet segment :: ·)
  | case7 window windows segment segments late early notShorter notLonger ih =>
      rw [narrow, if_neg late, if_neg early, if_neg notShorter, if_neg notLonger]
      apply Sweeps.afterLook _ (Nat.succ_pos _)
      apply Sweeps.afterReport
      exact ih.andReturn (window.meet segment :: ·)

end Sweeps

/-! ## One channel after the other -/

/-- Whether, from `processed` segments on, it has been told at the end of each channel how many
segments there are up to there, as long as they have the expected interval. -/
def TellsEach (expected : Int) (processed : Nat) (channels : List (List Span))
    (told : List Nat) : Prop :=
  ∀ swept ahead, channels = swept ++ ahead → swept ≠ [] →
    (∀ channel ∈ swept, ∀ segment ∈ channel, segment.interval = expected) →
    processed + totalOf List.length swept ∈ told

section Channels

variable {α : Type} {expected : Int} {processed : Nat} {channel : List Span}
  {channels : List (List Span)} {told more : List Nat}

theorem tellsEach_nil (expected : Int) (processed : Nat) : TellsEach expected processed [] [] := by
  intro swept ahead isParted nonempty
  exact absurd (List.append_eq_nil_iff.mp isParted.symm).1 nonempty

theorem TellsEach.cons (isTold : processed + channel.length ∈ told)
    (others : TellsEach expected (processed + channel.length) channels more) :
    TellsEach expected processed (channel :: channels) (told ++ more) := by
  intro swept ahead isParted nonempty same
  cases swept with
  | nil => exact absurd rfl nonempty
  | cons first later =>
      obtain ⟨rfl, isRest⟩ := List.cons.inj isParted
      cases later with
      | nil => exact List.mem_append_left more isTold
      | cons second rest =>
          have laterSame := (List.forall_mem_cons.mp same).2
          have isLater := others (second :: rest) ahead isRest (List.cons_ne_nil _ _) laterSame
          rw [Nat.add_assoc] at isLater
          exact List.mem_append_right told isLater

/-- Nothing has to be told if already the first channel has a segment of another interval. -/
theorem tellsEach_of_other (other : ¬∀ segment ∈ channel, segment.interval = expected) :
    TellsEach expected processed (channel :: channels) told := by
  intro swept ahead isParted nonempty same
  cases swept with
  | nil => exact absurd rfl nonempty
  | cons first later =>
      obtain ⟨rfl, _⟩ := List.cons.inj isParted
      exact absurd (same channel List.mem_cons_self) other

/-- Whether a search that nobody cancels sweeps over one channel after the other. -/
def SweepsAll (search : Search α) (expected : Int) (channels : List (List Span)) : Prop :=
  ∀ state : SearchState, state.patience = none →
    ∃ told, state.Leaves (totalOf List.length channels) told (search.run.run state) ∧
      told.length ≤ totalOf List.length channels + channels.length ∧
      TellsEach expected state.processed channels told

theorem sweepsAll_pure (expected : Int) (value : α) : SweepsAll (pure value) expected [] :=
  fun state _ =>
    ⟨[], .found state.advances_refl, Nat.le_refl 0, tellsEach_nil expected state.processed⟩

/-- The sweep over a channel comes before those over the others. If it stops early, the channel has
a segment of another interval, and no more is told. -/
theorem Sweeps.andSweepsAll {search : Search α} {next : α → Search (List Span)}
    (sweeps : search.Sweeps channel.length)
    (finds : (∀ segment ∈ channel, segment.interval = expected) → ∃ value, search.Finds value)
    (others : ∀ value, (next value).SweepsAll expected channels) :
    SweepsAll (search >>= next) expected (channel :: channels) := by
  intro state calm
  obtain ⟨told, leaves, few, upToDate⟩ := sweeps state calm
  rw [run_bind]
  generalize ran : search.run.run state = result at leaves upToDate
  cases leaves with
  | @found value later advances =>
      have isTold : state.processed + channel.length ∈ told := upToDate rfl
      obtain ⟨more, goesOn, moreFew, each⟩ := others value later (advances.patience.trans calm)
      rw [advances.processed] at each
      have allFew : (told ++ more).length ≤
          totalOf List.length (channel :: channels) + (channel :: channels).length := by
        simp only [List.length_append, totalOf_cons, List.length_cons]
        omega
      exact ⟨told ++ more, goesOn.after advances, allFew, each.cons isTold⟩
  | mixed wanted actual advances unfinished =>
      have allFew : told.length ≤
          totalOf List.length (channel :: channels) + (channel :: channels).length := by
        simp only [totalOf_cons, List.length_cons]
        omega
      have other : ¬∀ segment ∈ channel, segment.interval = expected := by
        intro same
        obtain ⟨value, isFound⟩ := finds same
        obtain ⟨later, isOk, _⟩ := isFound state calm
        rw [ran] at isOk
        cases isOk
      exact ⟨told, .mixed wanted actual advances (Nat.lt_add_right _ unfinished), allFew,
        tellsEach_of_other other⟩

theorem sweepsAll_foldlM (expected : Int) (channels : List (List Span)) (windows : List Span) :
    SweepsAll (channels.foldlM (narrow expected) windows) expected channels := by
  induction channels generalizing windows with
  | nil => exact sweepsAll_pure expected windows
  | cons channel later ih =>
      rw [List.foldlM_cons]
      exact (sweeps_narrow expected windows channel).andSweepsAll
        (fun same => ⟨_, finds_narrow same⟩) ih

/-- All of a search but its last snapshot sweeps over all channels. -/
theorem sweepsAll_seed (expected : Int) (first : List Span) (others : List (List Span)) :
    SweepsAll (do others.foldlM (narrow expected) (← seed expected first)) expected
      (first :: others) :=
  (sweeps_seed expected first).andSweepsAll (fun same => ⟨_, finds_seed same⟩)
    (sweepsAll_foldlM expected others)

end Channels

end Search

/-! ## The end of a search -/

/-- The state in which a search among some channels begins if nobody cancels it. -/
def SearchState.fresh (channels : List (List Span)) : SearchState :=
  ⟨totalOf List.length channels, 0, [], none⟩

/-- How a search among so many segments ends if nobody cancels it: as complete, when it is done with
all of them, or as failed, when it is not and has met one of another interval. -/
inductive SearchEnding (total : Nat) :
    Except SearchHalt (List Span) → (processed : Nat) → SearchProgress → Prop where
  | complete (windows : List Span) : SearchEnding total (.ok windows) total .complete
  | failed {processed : Nat} (expected actual : Int) (unfinished : processed < total) :
      SearchEnding total (.error (.mixedIntervals expected actual)) processed
        (.failed ⟨.intervalMismatch, mixedIntervalsMessage expected actual⟩)

theorem SearchEnding.within {total processed : Nat} {windows : Except SearchHalt (List Span)}
    {terminal : SearchProgress} (ending : SearchEnding total windows processed terminal) :
    processed ≤ total := by
  cases ending with
  | complete => exact Nat.le_refl _
  | failed expected actual unfinished => exact unfinished.le

/-- What a search tells that was done with `processed` of so many segments when it ended: some
counts, and then once how it ended. Neither the counts nor the share of the segments ever fall, and
what there is up to the end of each channel of the expected interval is among the counts. -/
structure SearchOutcome.Tells (outcome : SearchOutcome) (channels : List (List Span))
    (expected : Int) (total processed : Nat) (counts : List Nat) (terminal : SearchProgress) :
    Prop where
  published : outcome.published = SearchProgress.telling total counts ++ [terminal]
  ending : SearchEnding total outcome.windows processed terminal
  rising : counts.Pairwise (· ≤ ·)
  upTo : ∀ count ∈ counts, count ≤ processed
  within : processed ≤ total
  each : Search.TellsEach expected 0 channels counts
  percent : (SearchProgress.telling total counts).Pairwise
    fun earlier later => earlier.percent ≤ later.percent
  incomplete : ∀ snapshot ∈ SearchProgress.telling total counts, snapshot.percent < 100
  few : counts.length ≤ total + channels.length
  kept : ∀ capacity, counts.length < capacity → outcome.kept (some capacity) = outcome.published

/-- A search that has told some counts and adds how it ended tells no more than this. -/
theorem SearchState.Advances.tells {channels : List (List Span)} {swept : SearchState}
    {outcome : SearchOutcome} {expected : Int} {processed : Nat} {counts : List Nat}
    {terminal : SearchProgress}
    (advances : (SearchState.fresh channels).Advances swept processed counts)
    (published : outcome.published = swept.published ++ [terminal])
    (ending : SearchEnding (totalOf List.length channels) outcome.windows swept.processed terminal)
    (few : counts.length ≤ totalOf List.length channels + channels.length)
    (each : Search.TellsEach expected 0 channels counts) :
    outcome.Tells channels expected (totalOf List.length channels) swept.processed counts
      terminal := by
  have isPublished : outcome.published =
      SearchProgress.telling (totalOf List.length channels) counts ++ [terminal] :=
    published.trans (congrArg (· ++ [terminal]) advances.published)
  constructor
  case published => exact isPublished
  case ending => exact ending
  case rising => exact advances.rising
  case upTo => exact advances.upTo
  case within => exact ending.within
  case each => exact each
  case percent => exact SearchProgress.percent_telling_rising advances.rising
  case incomplete => exact SearchProgress.percent_telling_lt
  case few => exact few
  case kept =>
    intro capacity hasRoom
    apply outcome.kept_of_room
    rw [isPublished, List.length_append, SearchProgress.telling, List.length_map]
    exact hasRoom

theorem commonWindows_of_run {channels : List (List Span)} {final : SearchState}
    {windows : Except SearchHalt (List Span)}
    (ran : (Search.windows channels).run.run (.fresh channels) = (windows, final)) :
    commonWindows channels .never = ⟨windows, final.published⟩ := by
  have isOutcome : commonWindows channels .never =
      ⟨((Search.windows channels).run.run (.fresh channels)).1,
        ((Search.windows channels).run.run (.fresh channels)).2.published⟩ := rfl
  rw [isOutcome, ran]

/-- The counts of a search that nobody cancels, whose first channel has a segment, never fall and
never exceed the number of all segments, which it has reached when it ends with windows. Exactly one
snapshot tells that it has ended, the last one: as complete, or as failed at a segment of another
interval. A queue keeps all snapshots if it has room for one more than there are segments and
channels. -/
theorem commonWindows_tells (first : Span) (later : List Span) (others : List (List Span)) :
    let channels := (first :: later) :: others
    let final := ((Search.windows channels).run.run (.fresh channels)).2
    ∃ counts terminal, (commonWindows channels .never).Tells channels first.interval
      (totalOf List.length channels) final.processed counts terminal := by
  intro channels final
  let sweeping : Search (List Span) := do
    others.foldlM (Search.narrow first.interval) (← Search.seed first.interval (first :: later))
  have isSearch : Search.windows channels = do
      let windows ← sweeping
      Search.publish .complete
      return windows := by
    simp only [channels, sweeping, Search.windows, bind_assoc]
  obtain ⟨counts, leaves, few, each⟩ :=
    Search.sweepsAll_seed first.interval (first :: later) others (.fresh channels) rfl
  generalize ran : sweeping.run.run (.fresh channels) = result at leaves
  cases leaves with
  | @found windows swept advances =>
      have isProcessed : swept.processed = totalOf List.length channels :=
        advances.processed.trans (Nat.zero_add _)
      have ended : (Search.windows channels).run.run (.fresh channels) =
          (.ok windows, { swept with published := swept.published ++ [.complete] }) := by
        rw [isSearch, Search.run_bind, ran]
        rfl
      have isEnding : SearchEnding (totalOf List.length channels) (.ok windows) swept.processed
          .complete :=
        isProcessed ▸ .complete windows
      rw [commonWindows_of_run ended]
      simp only [final, ended]
      exact ⟨counts, .complete, advances.tells rfl isEnding few each⟩
  | @mixed swept processed expected actual advances unfinished =>
      have isProcessed : swept.processed = processed := advances.processed.trans (Nat.zero_add _)
      have ended : (Search.windows channels).run.run (.fresh channels) =
          (.error (.mixedIntervals expected actual), swept.failing expected actual) := by
        rw [isSearch, Search.run_bind, ran]
      rw [commonWindows_of_run ended]
      simp only [final, ended]
      exact ⟨counts, _, advances.tells rfl (.failed expected actual (isProcessed ▸ unfinished))
        few each⟩

/-- Two channels of one interval whose segments overlap in several ways, and one of another. -/
def strangerChannels : List (List Span) :=
  [[⟨0, 100, 10⟩, ⟨200, 300, 10⟩], [⟨50, 60, 10⟩, ⟨70, 250, 10⟩, ⟨400, 500, 10⟩], [⟨0, 500, 20⟩]]

theorem commonWindows_tells_stranger :
    let outcome := commonWindows strangerChannels .never
    .running 2 6 ∈ outcome.published ∧ .running 5 6 ∈ outcome.published ∧
      outcome.published.getLast? =
        some (.failed ⟨.intervalMismatch, mixedIntervalsMessage 10 20⟩) ∧
      outcome.kept (some 10) = outcome.published := by
  intro outcome
  obtain ⟨counts, terminal, isTold⟩ := commonWindows_tells ⟨0, 100, 10⟩ [⟨200, 300, 10⟩]
    [[⟨50, 60, 10⟩, ⟨70, 250, 10⟩, ⟨400, 500, 10⟩], [⟨0, 500, 20⟩]]
  have tells : outcome.Tells strangerChannels 10 6 _ counts terminal := isTold
  have afterFirst : 2 ∈ counts :=
    tells.each (strangerChannels.take 1) (strangerChannels.drop 1) rfl (by decide) (by decide)
  have afterSecond : 5 ∈ counts :=
    tells.each (strangerChannels.take 2) (strangerChannels.drop 2) rfl (by decide) (by decide)
  have ofCount : ∀ count ∈ counts, .running count 6 ∈ outcome.published := by
    intro count member
    rw [tells.published]
    exact List.mem_append_left _ (List.mem_map_of_mem member)
  have isHalt : outcome.windows = .error (.mixedIntervals 10 20) :=
    windows_commonWindows_eq_error_iff.mpr ⟨_, _, _, ⟨0, 500, 20⟩, rfl, rfl, rfl⟩
  have isFailure : terminal = .failed ⟨.intervalMismatch, mixedIntervalsMessage 10 20⟩ := by
    have ending := tells.ending
    rw [isHalt] at ending
    cases ending with
    | failed => rfl
  have isLast : outcome.published.getLast? = some terminal := by
    rw [tells.published, List.getLast?_concat]
  exact ⟨ofCount 2 afterFirst, ofCount 5 afterSecond, isLast.trans (congrArg some isFailure),
    tells.kept 10 (Nat.lt_succ_of_le tells.few)⟩

end Waveform
