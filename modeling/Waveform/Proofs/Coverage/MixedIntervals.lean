import Waveform.Proofs.Coverage.Narrowing

/-!
# Searches among segments of several intervals

A search looks at the interval of every segment, channel after channel and each channel from its
first segment on, also at the segments that no window reaches any more. The first segment whose
interval is not that of the very first one ends the search.
-/

namespace Waveform

namespace Span

/-- The first of some segments whose interval is not the expected one. -/
def firstOther? (expected : Int) (segments : List Span) : Option Span :=
  segments.find? fun segment => segment.interval ≠ expected

variable {expected : Int} {segments : List Span} {segment other : Span}

theorem firstOther?_eq_none_iff :
    firstOther? expected segments = none ↔ ∀ segment ∈ segments, segment.interval = expected := by
  simp [firstOther?]

theorem firstOther?_cons_of_eq (same : segment.interval = expected) :
    firstOther? expected (segment :: segments) = firstOther? expected segments := by
  simp [firstOther?, same]

theorem firstOther?_cons_of_ne (differs : segment.interval ≠ expected) :
    firstOther? expected (segment :: segments) = some segment := by
  simp [firstOther?, differs]

theorem firstOther?_append (segments others : List Span) :
    firstOther? expected (segments ++ others) =
      (firstOther? expected segments).or (firstOther? expected others) :=
  List.find?_append

/-- All segments before the first other one have the expected interval. -/
theorem firstOther?_eq_some_iff :
    firstOther? expected segments = some other ↔
      ∃ before after, segments = before ++ other :: after ∧
        (∀ segment ∈ before, segment.interval = expected) ∧ other.interval ≠ expected := by
  rw [firstOther?, List.find?_eq_some_iff_append]
  simp only [decide_eq_true_eq, Bool.not_eq_true', decide_eq_false_iff_not, not_not]
  constructor
  · rintro ⟨differs, before, after, isParted, same⟩
    exact ⟨before, after, isParted, same, differs⟩
  · rintro ⟨before, after, isParted, same, differs⟩
    exact ⟨differs, before, after, isParted, same⟩

/-- Some channels have a first other segment if any of them has another one at all. -/
theorem exists_firstOther?_flatten_iff {channels : List (List Span)} :
    (∃ other, firstOther? expected channels.flatten = some other) ↔
      ∃ channel ∈ channels, ∃ segment ∈ channel, segment.interval ≠ expected := by
  rw [← Option.isSome_iff_exists, firstOther?, List.find?_isSome]
  simp only [decide_eq_true_eq, List.mem_flatten]
  constructor
  · rintro ⟨segment, ⟨channel, isChannel, isSegment⟩, differs⟩
    exact ⟨channel, isChannel, segment, isSegment, differs⟩
  · rintro ⟨channel, isChannel, segment, isSegment, differs⟩
    exact ⟨segment, ⟨channel, isChannel, isSegment⟩, differs⟩

end Span

namespace Search

open Waveform.Span (firstOther?)

/-- Whether a search that nobody cancels stops early. -/
def Halts {α : Type} (search : Search α) (halt : SearchHalt) : Prop :=
  ∀ state : SearchState, state.patience = none →
    ∃ later : SearchState, search.run.run state = (.error halt, later)

variable {α β : Type} {expected : Int} {segments : List Span} {segment other : Span}
  {halt : SearchHalt}

/-- Nothing is done after a search that stops early. -/
theorem Halts.bind {search : Search α} (halts : search.Halts halt) (next : α → Search β) :
    Halts (search >>= next) halt := by
  intro state calm
  obtain ⟨later, isHalt⟩ := halts state calm
  refine ⟨later, ?_⟩
  rw [ExceptT.run_bind, StateT.run_bind, isHalt]
  rfl

theorem Finds.bind_halts {search : Search α} {value : α} {next : α → Search β}
    (finds : search.Finds value) (halts : (next value).Halts halt) :
    Halts (search >>= next) halt := by
  intro state calm
  obtain ⟨between, isFound, stillCalm⟩ := finds state calm
  obtain ⟨later, isHalt⟩ := halts between stillCalm
  refine ⟨later, ?_⟩
  rw [ExceptT.run_bind, StateT.run_bind, isFound]
  exact isHalt

theorem Halts.afterFinish {next : Search α} (halts : next.Halts halt) (count : Nat) :
    Halts (do finish count; publishCount; next) halt :=
  (finds_finish count).bind_halts (finds_publishCount.bind_halts halts)

theorem halts_requireInterval (differs : segment.interval ≠ expected) :
    Halts (requireInterval expected segment) (.mixedIntervals expected segment.interval) := by
  intro state _
  rw [requireInterval, if_pos differs]
  exact ⟨_, rfl⟩

/-- A look at a segment ends the search if it is the first one of another interval; otherwise that
one is still to come. -/
theorem halts_afterLook {next : Search α}
    (isFirst : firstOther? expected (segment :: segments) = some other)
    (goesOn : firstOther? expected segments = some other →
      next.Halts (.mixedIntervals expected other.interval)) :
    Halts (do haltIfCancelled; requireInterval expected segment; next)
      (.mixedIntervals expected other.interval) := by
  apply finds_haltIfCancelled.bind_halts
  by_cases same : segment.interval = expected
  · rw [Span.firstOther?_cons_of_eq same] at isFirst
    exact (finds_requireInterval same).bind_halts (goesOn isFirst)
  · rw [Span.firstOther?_cons_of_ne same, Option.some.injEq] at isFirst
    subst isFirst
    exact (halts_requireInterval same).bind _

theorem halts_requireIntervals (isFirst : firstOther? expected segments = some other) :
    Halts (segments.forM (requireInterval expected))
      (.mixedIntervals expected other.interval) := by
  induction segments with
  | nil => cases isFirst
  | cons segment later ih =>
      by_cases same : segment.interval = expected
      · rw [Span.firstOther?_cons_of_eq same] at isFirst
        exact (finds_requireInterval same).bind_halts (ih isFirst)
      · rw [Span.firstOther?_cons_of_ne same, Option.some.injEq] at isFirst
        subst isFirst
        exact (halts_requireInterval same).bind _

/-- The first channel is looked at from its first segment on. -/
theorem halts_seed (isFirst : firstOther? expected segments = some other) :
    Halts (seed expected segments) (.mixedIntervals expected other.interval) := by
  induction segments with
  | nil => cases isFirst
  | cons segment later ih =>
      rw [seed]
      apply halts_afterLook isFirst
      intro isLater
      exact (finds_finish 1).bind_halts ((ih isLater).bind _)

/-- Segments that no window reaches are looked at all the same. -/
theorem halts_skip (isFirst : firstOther? expected segments = some other) :
    Halts (skip expected segments) (.mixedIntervals expected other.interval) :=
  (halts_requireIntervals isFirst).bind _

/-- Narrowing looks at the segments in their order, whatever the windows are. -/
theorem halts_narrow (windows : List Span) (isFirst : firstOther? expected segments = some other) :
    Halts (narrow expected windows segments) (.mixedIntervals expected other.interval) := by
  fun_induction Span.sweep windows segments with
  | case1 segments =>
      rw [narrow]
      exact halts_skip isFirst
  | case2 window windows => cases isFirst
  | case3 window windows segment segments before ih =>
      rw [narrow, if_pos before]
      apply halts_afterLook isFirst
      intro isLater
      exact (ih isLater).afterFinish 1
  | case4 window windows segment segments late before ih =>
      rw [narrow, if_neg late, if_pos before]
      exact halts_afterLook isFirst fun _ => ih isFirst
  | case5 window windows segment segments late early shorter ih =>
      rw [narrow, if_neg late, if_neg early, if_pos shorter]
      apply halts_afterLook isFirst
      intro isLater
      apply Halts.afterFinish
      exact (ih isLater).bind _
  | case6 window windows segment segments late early notShorter longer ih =>
      rw [narrow, if_neg late, if_neg early, if_neg notShorter, if_pos longer]
      exact halts_afterLook isFirst fun _ => (ih isFirst).bind _
  | case7 window windows segment segments late early notShorter notLonger ih =>
      rw [narrow, if_neg late, if_neg early, if_neg notShorter, if_neg notLonger]
      apply halts_afterLook isFirst
      intro isLater
      apply Halts.afterFinish
      exact (ih isLater).bind _

/-- The channels are looked at one after the other, also when no window is left. -/
theorem halts_foldlM {channels : List (List Span)} (windows : List Span)
    (isFirst : firstOther? expected channels.flatten = some other) :
    Halts (channels.foldlM (narrow expected) windows)
      (.mixedIntervals expected other.interval) := by
  induction channels generalizing windows with
  | nil => cases isFirst
  | cons channel later ih =>
      rw [List.flatten_cons, Span.firstOther?_append] at isFirst
      rw [List.foldlM_cons]
      cases ofChannel : firstOther? expected channel with
      | none =>
          rw [ofChannel, Option.none_or] at isFirst
          exact (finds_narrow (Span.firstOther?_eq_none_iff.mp ofChannel)).bind_halts
            (ih _ isFirst)
      | some found =>
          rw [ofChannel, Option.some_or, Option.some.injEq] at isFirst
          subst isFirst
          exact (halts_narrow windows ofChannel).bind _

/-- A search looks at all segments of all channels. -/
theorem halts_windows {later : List Span} {channels : List (List Span)}
    (isFirst : firstOther? segment.interval ((segment :: later) :: channels).flatten = some other) :
    Halts (windows ((segment :: later) :: channels))
      (.mixedIntervals segment.interval other.interval) := by
  rw [List.flatten_cons, Span.firstOther?_append] at isFirst
  rw [windows]
  cases ofChannel : firstOther? segment.interval (segment :: later) with
  | none =>
      rw [ofChannel, Option.none_or] at isFirst
      apply (finds_seed (Span.firstOther?_eq_none_iff.mp ofChannel)).bind_halts
      exact (halts_foldlM _ isFirst).bind _
  | some found =>
      rw [ofChannel, Option.some_or, Option.some.injEq] at isFirst
      subst isFirst
      exact (halts_seed ofChannel).bind _

end Search

/-- A search that nobody cancels, whose first channel has a segment, stops early at the first
segment of another interval than that one, if there is any. -/
theorem windows_commonWindows_of_other {segment other : Span} {later : List Span}
    {channels : List (List Span)}
    (isFirst :
      Span.firstOther? segment.interval ((segment :: later) :: channels).flatten = some other) :
    (commonWindows ((segment :: later) :: channels) .never).windows =
      .error (.mixedIntervals segment.interval other.interval) := by
  obtain ⟨final, isHalt⟩ := Search.halts_windows isFirst
    ⟨totalOf List.length ((segment :: later) :: channels), 0, [], none⟩ rfl
  have isOutcome : (commonWindows ((segment :: later) :: channels) .never).windows =
      ((Search.windows ((segment :: later) :: channels)).run.run
        ⟨totalOf List.length ((segment :: later) :: channels), 0, [], none⟩).1 := rfl
  rw [isOutcome, isHalt]

/-- Without channels, or without segments in the first one, there is nothing to look at. -/
theorem windows_commonWindows_of_noSeed {channels : List (List Span)}
    (noSeed : channels.headD [] = []) : (commonWindows channels .never).windows = .ok [] := by
  cases channels with
  | nil => rfl
  | cons first others =>
      obtain rfl : first = [] := noSeed
      rfl

/-- What ends a search that nobody cancels is the first segment of another interval than the very
first one. -/
theorem windows_commonWindows_eq_error_iff {channels : List (List Span)} {halt : SearchHalt} :
    (commonWindows channels .never).windows = .error halt ↔
      ∃ first later others other, channels = (first :: later) :: others ∧
        Span.firstOther? first.interval channels.flatten = some other ∧
        halt = .mixedIntervals first.interval other.interval := by
  constructor
  · intro isHalt
    match channels with
    | [] | [] :: others =>
        rw [windows_commonWindows_of_noSeed rfl] at isHalt
        cases isHalt
    | (first :: later) :: others =>
        cases isFirst : Span.firstOther? first.interval ((first :: later) :: others).flatten with
        | none =>
            have same := Span.firstOther?_eq_none_iff.mp isFirst
            rw [windows_commonWindows fun channel isChannel segment isSegment =>
              same segment (List.mem_flatten.mpr ⟨channel, isChannel, isSegment⟩)] at isHalt
            cases isHalt
        | some other =>
            rw [windows_commonWindows_of_other isFirst] at isHalt
            cases isHalt
            exact ⟨first, later, others, other, rfl, isFirst, rfl⟩
  · rintro ⟨first, later, others, other, rfl, isFirst, rfl⟩
    exact windows_commonWindows_of_other isFirst

/-- A search that nobody cancels stops early exactly if the first channel has a segment and some
segment, in any channel, at any place and whether or not a window reaches it, has another interval
than this one. It tells the interval it has expected and that of the first such segment, in the
order of the channels and then of their segments. -/
theorem commonWindows_halts_iff (channels : List (List Span)) :
    ((∃ halt, (commonWindows channels .never).windows = .error halt) ↔
      ∃ first later others, channels = (first :: later) :: others ∧
        ∃ channel ∈ channels, ∃ segment ∈ channel, segment.interval ≠ first.interval) ∧
    ∀ halt, (commonWindows channels .never).windows = .error halt ↔
      ∃ first later others other, channels = (first :: later) :: others ∧
        (∃ before after, channels.flatten = before ++ other :: after ∧
          (∀ segment ∈ before, segment.interval = first.interval) ∧
          other.interval ≠ first.interval) ∧
        halt = .mixedIntervals first.interval other.interval := by
  constructor
  · simp only [windows_commonWindows_eq_error_iff, ← Span.exists_firstOther?_flatten_iff]
    constructor
    · rintro ⟨_, first, later, others, other, isSeeded, isFirst, _⟩
      exact ⟨first, later, others, isSeeded, other, isFirst⟩
    · rintro ⟨first, later, others, isSeeded, other, isFirst⟩
      exact ⟨_, first, later, others, other, isSeeded, isFirst, rfl⟩
  · intro halt
    simp only [← Span.firstOther?_eq_some_iff]
    exact windows_commonWindows_eq_error_iff

end Waveform
