import Mathlib.Data.List.Perm.Basic
import Waveform.Proofs.Coverage.Narrowing

/-!
# Windows common to all channels

A choice takes one segment of every channel, such that every two of them overlap; its window reaches
from the last of their starts to the first of their stops. A search finds exactly the windows of the
choices, each once and in the order of time, whatever the order of the channels.
-/

namespace Waveform

attribute [ext] Span

namespace Span

/-- Whether some segments are one of every channel, every two of which overlap. -/
structure IsChoice (channels : List (List Span)) (choice : List Span) : Prop where
  chosen : List.Forall₂ (· ∈ ·) choice channels
  overlapping : choice.Pairwise Overlaps

/-- Whether a window reaches from the last start to the first stop of some segments. -/
structure IsWindowOf (choice : List Span) (window : Span) : Prop where
  start : (choice.map Span.start).max? = some window.start
  stop : (choice.map Span.stop).min? = some window.stop

variable {channels : List (List Span)} {channel choice windows : List Span}
  {window segment found : Span}

theorem isWindowOf_iff :
    IsWindowOf choice window ↔
      (∃ chosen ∈ choice, chosen.start = window.start) ∧
        (∃ chosen ∈ choice, chosen.stop = window.stop) ∧
        ∀ chosen ∈ choice, chosen.start ≤ window.start ∧ window.stop ≤ chosen.stop := by
  have limits : IsWindowOf choice window ↔ (choice.map Span.start).max? = some window.start ∧
      (choice.map Span.stop).min? = some window.stop :=
    ⟨fun isWindow => ⟨isWindow.start, isWindow.stop⟩, fun both => ⟨both.1, both.2⟩⟩
  rw [limits, List.max?_eq_some_iff, List.min?_eq_some_iff]
  simp only [List.mem_map, forall_exists_index, and_imp, forall_apply_eq_imp_iff₂]
  constructor
  · rintro ⟨⟨starts, latest⟩, stops, earliest⟩
    exact ⟨starts, stops, fun chosen member => ⟨latest chosen member, earliest chosen member⟩⟩
  · rintro ⟨starts, stops, limits⟩
    exact ⟨⟨starts, fun chosen member => (limits chosen member).1⟩, stops,
      fun chosen member => (limits chosen member).2⟩

theorem IsWindowOf.perm (isWindow : IsWindowOf choice window) {reordered : List Span}
    (same : choice.Perm reordered) : IsWindowOf reordered window := by
  rw [isWindowOf_iff] at isWindow ⊢
  simpa only [same.mem_iff] using isWindow

theorem isWindowOf_singleton :
    IsWindowOf [segment] window ↔ window.start = segment.start ∧ window.stop = segment.stop := by
  rw [isWindowOf_iff]
  simp only [List.mem_singleton, exists_eq_left, forall_eq]
  omega

/-- Some segments, at least one, have a window. -/
theorem exists_isWindowOf (nonempty : choice ≠ []) (interval : Int) :
    ∃ window : Span, window.interval = interval ∧ IsWindowOf choice window := by
  obtain ⟨latest, isLatest⟩ : ∃ latest, (choice.map Span.start).max? = some latest :=
    Option.isSome_iff_exists.mp (List.isSome_max?_of_ne_nil (by simpa using nonempty))
  obtain ⟨earliest, isEarliest⟩ : ∃ earliest, (choice.map Span.stop).min? = some earliest :=
    Option.isSome_iff_exists.mp (List.isSome_min?_of_ne_nil (by simpa using nonempty))
  exact ⟨⟨latest, earliest, interval⟩, rfl, isLatest, isEarliest⟩

/-- One more segment narrows a window to what both have in common. -/
theorem IsWindowOf.cons_iff (isWindow : IsWindowOf choice window) :
    IsWindowOf (segment :: choice) found ↔
      found.start = max window.start segment.start ∧ found.stop = min window.stop segment.stop := by
  have latest : ((segment :: choice).map Span.start).max? =
      some (max segment.start window.start) := by
    rw [List.map_cons, List.max?_cons, isWindow.start, Option.elim_some]
  have earliest : ((segment :: choice).map Span.stop).min? =
      some (min segment.stop window.stop) := by
    rw [List.map_cons, List.min?_cons, isWindow.stop, Option.elim_some]
  constructor
  · intro isFound
    have start := latest.symm.trans isFound.start
    have stop := earliest.symm.trans isFound.stop
    rw [Option.some.injEq] at start stop
    exact ⟨by rw [← start, max_comm], by rw [← stop, min_comm]⟩
  · rintro ⟨start, stop⟩
    exact ⟨by rw [latest, start, max_comm], by rw [earliest, stop, min_comm]⟩

/-- A segment overlaps the window of a choice if it overlaps every segment of the choice. -/
theorem IsWindowOf.overlaps_iff (isWindow : IsWindowOf choice window) :
    window.Overlaps segment ↔ ∀ chosen ∈ choice, segment.Overlaps chosen := by
  obtain ⟨⟨latest, isLatest, start⟩, ⟨earliest, isEarliest, stop⟩, limits⟩ :=
    isWindowOf_iff.mp isWindow
  simp only [Overlaps]
  constructor
  · rintro ⟨startsBefore, stopsAfter⟩ chosen member
    have within := limits chosen member
    omega
  · intro overlapping
    have overlapsLatest := overlapping latest isLatest
    have overlapsEarliest := overlapping earliest isEarliest
    omega

/-- The choices from one more channel. -/
theorem isChoice_cons_iff :
    IsChoice (channel :: channels) (segment :: choice) ↔
      segment ∈ channel ∧ IsChoice channels choice ∧
        ∀ chosen ∈ choice, segment.Overlaps chosen := by
  constructor
  · rintro ⟨chosen, overlapping⟩
    obtain ⟨isSegment, others⟩ := List.forall₂_cons.mp chosen
    obtain ⟨overlaps, pairwise⟩ := List.pairwise_cons.mp overlapping
    exact ⟨isSegment, ⟨others, pairwise⟩, overlaps⟩
  · rintro ⟨isSegment, ⟨others, pairwise⟩, overlaps⟩
    exact ⟨List.forall₂_cons.mpr ⟨isSegment, others⟩, List.pairwise_cons.mpr ⟨overlaps, pairwise⟩⟩

/-- The same segments are a choice from the channels in any order. -/
theorem IsChoice.perm (isChoice : IsChoice channels choice) {reordered : List (List Span)}
    (same : channels.Perm reordered) :
    ∃ others, choice.Perm others ∧ IsChoice reordered others := by
  have swapped : Relation.Comp (List.Forall₂ (· ∈ ·)) List.Perm choice reordered :=
    ⟨channels, isChoice.chosen, same⟩
  rw [List.forall₂_comp_perm_eq_perm_comp_forall₂] at swapped
  obtain ⟨others, isOthers, chosen⟩ := swapped
  exact ⟨others, isOthers, chosen,
    (isOthers.pairwise_iff Overlaps.symm).mp isChoice.overlapping⟩

/-! ## The windows of all choices -/

/-- Whether windows in the order of time are exactly those of the choices from some channels. -/
structure AreCommonTo (interval : Int) (channels : List (List Span)) (windows : List Span) :
    Prop where
  ordered : TimeOrdered windows
  mem_iff : ∀ window, window ∈ windows ↔
    window.interval = interval ∧ ∃ choice, IsChoice channels choice ∧ IsWindowOf choice window

theorem AreCommonTo.perm {interval : Int} (common : AreCommonTo interval channels windows)
    {reordered : List (List Span)} (same : channels.Perm reordered) :
    AreCommonTo interval reordered windows := by
  refine ⟨common.ordered, ?_⟩
  intro window
  rw [common.mem_iff]
  apply and_congr_right
  intro _
  constructor
  · rintro ⟨choice, isChoice, isWindow⟩
    obtain ⟨others, isOthers, othersChoice⟩ := isChoice.perm same
    exact ⟨others, othersChoice, isWindow.perm isOthers⟩
  · rintro ⟨choice, isChoice, isWindow⟩
    obtain ⟨others, isOthers, othersChoice⟩ := isChoice.perm same.symm
    exact ⟨others, othersChoice, isWindow.perm isOthers⟩

/-- The windows of the choices from some channels are determined by these. -/
theorem AreCommonTo.unique {interval : Int} {others : List Span}
    (common : AreCommonTo interval channels windows)
    (othersCommon : AreCommonTo interval channels others) : windows = others := by
  apply common.ordered.ext othersCommon.ordered
  intro window
  rw [common.mem_iff, othersCommon.mem_iff]

/-- The segments of a single channel are the windows of its choices. -/
theorem areCommonTo_singleton {interval : Int} (ordered : TimeOrdered channel)
    (same : ∀ segment ∈ channel, segment.interval = interval) :
    AreCommonTo interval [channel] channel := by
  refine ⟨ordered, ?_⟩
  intro window
  constructor
  · intro member
    refine ⟨same window member, [window], ⟨.cons member .nil, List.pairwise_singleton _ _⟩, ?_⟩
    exact isWindowOf_singleton.mpr ⟨rfl, rfl⟩
  · rintro ⟨isInterval, choice, ⟨chosen, _⟩, isWindow⟩
    cases chosen with
    | cons isSegment others =>
        cases others
        obtain ⟨start, stop⟩ := isWindowOf_singleton.mp isWindow
        have sameSpan : window = _ := Span.ext start stop (isInterval.trans (same _ isSegment).symm)
        rw [sameSpan]
        exact isSegment

/-- A sweep over the windows of the choices from some channels and the segments of one more finds
the windows of the choices from all of them. -/
theorem AreCommonTo.sweep {interval : Int} (common : AreCommonTo interval channels windows)
    (nonempty : channels ≠ []) (ordered : TimeOrdered channel) :
    AreCommonTo interval (channel :: channels) (sweep windows channel) := by
  refine ⟨sweep_timeOrdered common.ordered ordered, ?_⟩
  intro found
  rw [mem_sweep_iff common.ordered ordered]
  constructor
  · rintro ⟨window, isWindow, segment, isSegment, overlaps, rfl⟩
    obtain ⟨isInterval, choice, isChoice, isWindowOf⟩ := (common.mem_iff window).mp isWindow
    refine ⟨isInterval, segment :: choice, ?_, ?_⟩
    · exact isChoice_cons_iff.mpr
        ⟨isSegment, isChoice, isWindowOf.overlaps_iff.mp overlaps⟩
    · exact isWindowOf.cons_iff.mpr ⟨rfl, rfl⟩
  · rintro ⟨isInterval, choice, isChoice, isWindowOf⟩
    cases choice with
    | nil => cases isChoice.chosen
    | cons segment choice =>
        obtain ⟨isSegment, isRest, overlaps⟩ := isChoice_cons_iff.mp isChoice
        have someChosen : choice ≠ [] := by
          rintro rfl
          cases isRest.chosen
          exact nonempty rfl
        obtain ⟨window, sameInterval, isRestWindow⟩ := exists_isWindowOf someChosen interval
        obtain ⟨start, stop⟩ := isRestWindow.cons_iff.mp isWindowOf
        refine ⟨window, (common.mem_iff window).mpr ⟨sameInterval, choice, isRest, isRestWindow⟩,
          segment, isSegment, isRestWindow.overlaps_iff.mpr overlaps, ?_⟩
        exact Span.ext start stop (isInterval.trans sameInterval.symm)

/-- Sweeping over one channel after the other finds the windows of the choices from all of them. -/
theorem AreCommonTo.foldl_sweep {interval : Int} {more : List (List Span)}
    (common : AreCommonTo interval channels windows) (nonempty : channels ≠ [])
    (ordered : ∀ channel ∈ more, TimeOrdered channel) :
    AreCommonTo interval (more.reverse ++ channels) (more.foldl Span.sweep windows) := by
  induction more generalizing channels windows with
  | nil => exact common
  | cons channel later ih =>
      obtain ⟨first, others⟩ := List.forall_mem_cons.mp ordered
      rw [List.reverse_cons, List.append_assoc, List.singleton_append]
      exact ih (common.sweep nonempty first) (List.cons_ne_nil _ _) others

/-- A choice is determined by the channels and a moment that all of its segments cover. -/
theorem choice_unique {others : List Span} {time : Int}
    (ordered : ∀ channel ∈ channels, TimeOrdered channel)
    (chosen : List.Forall₂ (· ∈ ·) choice channels)
    (othersChosen : List.Forall₂ (· ∈ ·) others channels)
    (covers : ∀ segment ∈ choice, segment.start ≤ time ∧ time ≤ segment.stop)
    (othersCover : ∀ segment ∈ others, segment.start ≤ time ∧ time ≤ segment.stop) :
    choice = others := by
  induction chosen generalizing others with
  | nil =>
      cases othersChosen
      rfl
  | cons isSegment _ ih =>
      cases othersChosen with
      | cons isOther othersLater =>
          obtain ⟨firstOrdered, laterOrdered⟩ := List.forall_mem_cons.mp ordered
          obtain ⟨firstCovers, laterCover⟩ := List.forall_mem_cons.mp covers
          obtain ⟨otherCovers, othersLaterCover⟩ := List.forall_mem_cons.mp othersCover
          have sameFirst := firstOrdered.eq_of_common isSegment isOther firstCovers otherCovers
          have sameLater := ih laterOrdered othersLater laterCover othersLaterCover
          rw [sameFirst, sameLater]

/-- No two choices have the same window. -/
theorem AreCommonTo.existsUnique {interval : Int} (common : AreCommonTo interval channels windows)
    (ordered : ∀ channel ∈ channels, TimeOrdered channel) (member : window ∈ windows) :
    ∃! choice, IsChoice channels choice ∧ IsWindowOf choice window := by
  obtain ⟨_, choice, isChoice, isWindow⟩ := (common.mem_iff window).mp member
  have forward := common.ordered.forward window member
  have covers {others : List Span} (isOthersWindow : IsWindowOf others window) :
      ∀ segment ∈ others, segment.start ≤ window.start ∧ window.start ≤ segment.stop := by
    intro segment isSegment
    have within := (isWindowOf_iff.mp isOthersWindow).2.2 segment isSegment
    omega
  refine ⟨choice, ⟨isChoice, isWindow⟩, ?_⟩
  rintro others ⟨isOthersChoice, isOthersWindow⟩
  exact choice_unique ordered isOthersChoice.chosen isChoice.chosen (covers isOthersWindow)
    (covers isWindow)

/-- Every window lies within a segment of every channel. -/
theorem AreCommonTo.exists_isWithin {interval : Int}
    (common : AreCommonTo interval channels windows) (member : window ∈ windows)
    (isChannel : channel ∈ channels) :
    ∃ segment ∈ channel, window.isWithin segment := by
  obtain ⟨_, choice, isChoice, isWindow⟩ := (common.mem_iff window).mp member
  have limits := (isWindowOf_iff.mp isWindow).2.2
  obtain ⟨place, inside, rfl⟩ := List.getElem_of_mem isChannel
  obtain ⟨sameLength, chosen⟩ := List.forall₂_iff_get.mp isChoice.chosen
  have insideChoice : place < choice.length := by omega
  refine ⟨choice[place], chosen place insideChoice inside, ?_⟩
  obtain ⟨starts, stops⟩ := limits choice[place] (List.getElem_mem insideChoice)
  simp [isWithin, starts, stops]

end Span

/-- A search among channels of one interval finds the windows of all choices. -/
theorem commonWindows_areCommon {channels : List (List Span)} {interval : Int}
    (nonempty : channels ≠ []) (ordered : ∀ channel ∈ channels, Span.TimeOrdered channel)
    (same : ∀ channel ∈ channels, ∀ segment ∈ channel, segment.interval = interval) :
    ∃ windows, (commonWindows channels .never).windows = .ok windows ∧
      Span.AreCommonTo interval channels windows := by
  cases channels with
  | nil => exact absurd rfl nonempty
  | cons first channels =>
      obtain ⟨firstOrdered, othersOrdered⟩ := List.forall_mem_cons.mp ordered
      obtain ⟨firstSame, _⟩ := List.forall_mem_cons.mp same
      refine ⟨_, windows_commonWindows same, ?_⟩
      have common := (Span.areCommonTo_singleton firstOrdered firstSame).foldl_sweep
        (List.cons_ne_nil _ _) othersOrdered
      apply common.perm
      rw [← List.reverse_cons]
      exact List.reverse_perm _

/-- A search that nobody cancels, among channels of one interval whose segments are in the order of
time, finds exactly the windows of all choices of one segment of every channel that overlap each
other. It finds them in the order of time, so that they are disjoint and none is found twice; each
is the window of one choice only and lies within a segment of every channel; and the order of the
channels does not matter. -/
theorem commonWindows_complete {channels : List (List Span)} {interval : Int}
    (nonempty : channels ≠ []) (ordered : ∀ channel ∈ channels, Span.TimeOrdered channel)
    (same : ∀ channel ∈ channels, ∀ segment ∈ channel, segment.interval = interval) :
    ∃ windows, (commonWindows channels .never).windows = .ok windows ∧
      Span.TimeOrdered windows ∧
      (∀ window, window ∈ windows ↔ window.interval = interval ∧
        ∃ choice, Span.IsChoice channels choice ∧ Span.IsWindowOf choice window) ∧
      (∀ window ∈ windows,
        (∃! choice, Span.IsChoice channels choice ∧ Span.IsWindowOf choice window) ∧
        ∀ channel ∈ channels, ∃ segment ∈ channel, window.isWithin segment) ∧
      ∀ reordered, channels.Perm reordered →
        (commonWindows reordered .never).windows = .ok windows := by
  obtain ⟨windows, areFound, common⟩ := commonWindows_areCommon nonempty ordered same
  refine ⟨windows, areFound, common.ordered, common.mem_iff, ?_, ?_⟩
  · intro window member
    exact ⟨common.existsUnique ordered member,
      fun channel isChannel => common.exists_isWithin member isChannel⟩
  · intro reordered isReordered
    have member (channel : List Span) : channel ∈ reordered → channel ∈ channels :=
      isReordered.mem_iff.mpr
    have stillNonempty : reordered ≠ [] := by
      rintro rfl
      exact nonempty isReordered.eq_nil
    obtain ⟨others, othersFound, othersCommon⟩ := commonWindows_areCommon stillNonempty
      (fun channel isChannel => ordered channel (member channel isChannel))
      (fun channel isChannel => same channel (member channel isChannel))
    rw [othersFound, (common.perm isReordered).unique othersCommon]

/-- Segments that touch, one of a single moment, and a channel that stops in the middle. -/
def crossedChannels : List (List Span) :=
  [[⟨0, 100, 10⟩, ⟨200, 300, 10⟩, ⟨350, 350, 10⟩], [⟨50, 250, 10⟩, ⟨340, 400, 10⟩],
    [⟨-20, 50, 10⟩, ⟨90, 1000, 10⟩]]

theorem commonWindows_complete_crossed :
    crossedChannels ≠ [] ∧ (∀ channel ∈ crossedChannels, Span.TimeOrdered channel) ∧
      (∀ channel ∈ crossedChannels, ∀ segment ∈ channel, segment.interval = 10) ∧
      (commonWindows crossedChannels .never).windows =
        .ok [⟨90, 100, 10⟩, ⟨200, 250, 10⟩, ⟨350, 350, 10⟩] ∧
      (commonWindows crossedChannels.reverse .never).windows =
        .ok [⟨90, 100, 10⟩, ⟨200, 250, 10⟩, ⟨350, 350, 10⟩] := by
  have nonempty : crossedChannels ≠ [] := List.cons_ne_nil _ _
  have ordered : ∀ channel ∈ crossedChannels, Span.TimeOrdered channel := by decide
  have same : ∀ channel ∈ crossedChannels, ∀ segment ∈ channel, segment.interval = 10 := by decide
  have areFound : (commonWindows crossedChannels .never).windows =
      .ok [⟨90, 100, 10⟩, ⟨200, 250, 10⟩, ⟨350, 350, 10⟩] := by
    rw [crossedChannels, windows_commonWindows same]
    simp [Span.sweep, Span.meet]
  obtain ⟨windows, isResult, _, _, _, anyOrder⟩ := commonWindows_complete nonempty ordered same
  refine ⟨nonempty, ordered, same, areFound, ?_⟩
  rw [anyOrder _ crossedChannels.reverse_perm.symm, ← isResult, areFound]

end Waveform
