import Waveform.Coverage.WindowSamples
import Waveform.Proofs.Coverage.CommonWindows
import Waveform.Proofs.Coverage.WindowRows

/-!
# Rows of channels

For every window that a search finds among channels of traces, each channel has one segment that
covers it, so that the samples of the window can be taken. A row holds the samples that the channel
has in the window and, where the grids of the channels lie between each other, possibly one sample
more from behind it.
-/

namespace Waveform

/-- A trace has no samples in a window that lies before or behind it. -/
theorem Trace.timedWithin_eq_nil {trace : Trace} (nonneg : 0 ≤ trace.interval) {first last : Int}
    (outside : trace.stop < first ∨ last < trace.start) : trace.timedWithin first last = [] := by
  rw [timedWithin, List.filter_eq_nil_iff]
  rintro ⟨time, value⟩ member
  have gives := mem_timed_iff.mp member
  have notBefore := gives.start_le nonneg
  have notAfter := gives.le_stop nonneg
  rw [decide_eq_true_eq]
  omega

/-- The samples that a channel has in a window, each with its time. -/
def Span.samplesIn (window : Span) (channel : List Trace) : List (Int × Int32) :=
  channel.flatMap fun segment => segment.timedWithin window.start window.stop

/-- Whether a row consists of the samples that a channel has in a window and of an overrun behind
them: at most one sample, of the segment that covers the window. There is none exactly if the first
sample in the window is late by no more than the part of an interval by which the window reaches
beyond whole ones. -/
structure Span.RowParts (window : Span) (channel : List Trace) (overrun : List (Int × Int32))
    (row : List Int32) : Prop where
  row_eq : row = (window.samplesIn channel ++ overrun).map Prod.snd
  length_row : row.length = window.sampleCount
  length_overrun : overrun.length ≤ 1
  behind : ∀ entry ∈ overrun, window.stop < entry.1 ∧ entry.1 < window.stop + window.interval
  covered : ∃ segment ∈ channel, window.isWithin segment.span ∧
    (∀ entry ∈ overrun, entry ∈ segment.timed) ∧
    (overrun = [] ↔ segment.extent.lag window.start ≤ window.range % window.interval)

/-- Whether traces are the segments of a channel that is taken at an interval: they have samples and
follow each other in time. -/
structure Trace.AreChannel (interval : Int) (segments : List Trace) : Prop where
  taken : ∀ segment ∈ segments, segment.TakenAt interval
  apart : segments.Pairwise fun earlier later => earlier.stop < later.start

instance (trace : Trace) (interval : Int) : Decidable (trace.TakenAt interval) :=
  decidable_of_iff (trace.samples ≠ [] ∧ trace.interval = interval)
    ⟨fun both => ⟨both.1, both.2⟩, fun taken => ⟨taken.nonempty, taken.interval_eq⟩⟩

instance (interval : Int) (segments : List Trace) :
    Decidable (Trace.AreChannel interval segments) :=
  decidable_of_iff ((∀ segment ∈ segments, segment.TakenAt interval) ∧
      segments.Pairwise fun earlier later => earlier.stop < later.start)
    ⟨fun both => ⟨both.1, both.2⟩, fun channel => ⟨channel.taken, channel.apart⟩⟩

namespace Trace.AreChannel

variable {interval : Int} {segments : List Trace} {segment : Trace} {window : Span}

theorem timeOrdered (channel : AreChannel interval segments) (nonneg : 0 ≤ interval) :
    Span.TimeOrdered (segments.map Trace.span) := by
  constructor
  · simp only [List.mem_map, forall_exists_index, and_imp, forall_apply_eq_imp_iff₂]
    intro segment member
    exact (channel.taken segment member).start_le_stop nonneg
  · exact List.pairwise_map.mpr channel.apart

/-- Around a segment, the earlier segments stop before it and the later ones start behind it. -/
theorem exists_parts (channel : AreChannel interval segments) (member : segment ∈ segments) :
    ∃ before after, segments = before ++ segment :: after ∧
      (∀ other ∈ before, other.stop < segment.start) ∧
      ∀ other ∈ after, segment.stop < other.start := by
  obtain ⟨before, after, rfl⟩ := List.append_of_mem member
  obtain ⟨_, later, acrossApart⟩ := List.pairwise_append.mp channel.apart
  refine ⟨before, after, rfl, ?_, (List.pairwise_cons.mp later).1⟩
  intro other isBefore
  exact acrossApart other isBefore segment List.mem_cons_self

/-- The segment that covers a window is the one that is found. -/
theorem find?_eq (channel : AreChannel interval segments) (member : segment ∈ segments)
    (lies : window.LiesIn segment) :
    segments.find? (fun segment => window.isWithin segment.span) = some segment := by
  obtain ⟨before, after, isParted, earlier, _⟩ := channel.exists_parts member
  rw [List.find?_eq_some_iff_append]
  refine ⟨lies.isWithin, before, after, isParted, ?_⟩
  intro other isBefore
  rw [Bool.not_eq_true', ← Bool.not_eq_true, Span.isWithin_iff]
  rintro ⟨_, stopsAfter⟩
  have stopsBefore : other.stop < window.stop :=
    (earlier other isBefore).trans_le (lies.start_le.trans lies.forward)
  exact absurd stopsAfter (not_le.mpr stopsBefore)

/-- Only one segment covers a window. -/
theorem eq_of_isWithin (channel : AreChannel interval segments) (member : segment ∈ segments)
    (lies : window.LiesIn segment) :
    ∀ other ∈ segments, window.isWithin other.span → other = segment := by
  intro other isOther isWithin
  have liesInOther : window.LiesIn other := by
    obtain ⟨startsBefore, stopsAfter⟩ := Span.isWithin_iff.mp isWithin
    have sameInterval : window.interval = interval :=
      lies.taken.interval_eq.symm.trans (channel.taken segment member).interval_eq
    exact ⟨lies.positive, lies.forward, sameInterval ▸ channel.taken other isOther, startsBefore,
      stopsAfter⟩
  exact Option.some.inj ((channel.find?_eq isOther liesInOther).symm.trans
    (channel.find?_eq member lies))

/-- The row of a channel is the row of the segment that covers the window. -/
theorem rowOf_eq (channel : AreChannel interval segments) (member : segment ∈ segments)
    (lies : window.LiesIn segment) : window.rowOf segments = .ok (window.rowIn segment) := by
  rw [Span.rowOf, channel.find?_eq member lies]
  dsimp only
  rw [if_neg (not_not.mpr lies.taken.interval_eq), lies.sliceFrom_eq]
  rfl

/-- No other segment has samples in a window that a segment covers. -/
theorem samplesIn_eq (channel : AreChannel interval segments) (member : segment ∈ segments)
    (lies : window.LiesIn segment) :
    window.samplesIn segments = segment.timedWithin window.start window.stop := by
  obtain ⟨before, after, isParted, earlier, later⟩ := channel.exists_parts member
  have nonneg : 0 ≤ interval := by
    rw [← (channel.taken segment member).interval_eq]
    exact lies.segment_positive.le
  have taken := channel.taken
  rw [isParted] at taken
  have noneBefore :
      (before.flatMap fun other => other.timedWithin window.start window.stop) = [] := by
    rw [List.flatMap_eq_nil_iff]
    intro other isBefore
    have otherTaken := taken other (List.mem_append_left _ isBefore)
    apply timedWithin_eq_nil (otherTaken.interval_eq ▸ nonneg)
    exact .inl ((earlier other isBefore).trans_le lies.start_le)
  have noneAfter :
      (after.flatMap fun other => other.timedWithin window.start window.stop) = [] := by
    rw [List.flatMap_eq_nil_iff]
    intro other isAfter
    have otherTaken := taken other (List.mem_append_right _ (List.mem_cons_of_mem _ isAfter))
    apply timedWithin_eq_nil (otherTaken.interval_eq ▸ nonneg)
    exact .inr (lies.stop_le.trans_lt (later other isAfter))
  rw [Span.samplesIn, isParted, List.flatMap_append, List.flatMap_cons, noneBefore, noneAfter,
    List.nil_append, List.append_nil]

theorem exists_rowParts (channel : AreChannel interval segments) (member : segment ∈ segments)
    (lies : window.LiesIn segment) :
    ∃ overrun, window.RowParts segments overrun (window.rowIn segment) := by
  obtain ⟨overrun, isRow, isNone_iff, atMostOne, behind⟩ := lies.exists_overrun
  rw [← channel.samplesIn_eq member lies] at isRow
  exact ⟨overrun, isRow, lies.length_rowIn, atMostOne, fun entry isOver => (behind entry isOver).2,
    segment, member, lies.isWithin, fun entry isOver => (behind entry isOver).1, isNone_iff⟩

/-- The row of a segment on whose grid the window starts has no overrun. -/
theorem rowIn_of_aligned (channel : AreChannel interval segments) (member : segment ∈ segments)
    (lies : window.LiesIn segment) (aligned : interval ∣ segment.start - window.start) :
    window.rowIn segment = (window.samplesIn segments).map Prod.snd := by
  obtain ⟨overrun, isRow, isNone_iff, _⟩ := lies.exists_overrun
  have noLag : segment.extent.lag window.start = 0 := by
    rw [← (channel.taken segment member).interval_eq] at aligned
    exact Int.emod_eq_zero_of_dvd aligned
  have isNone : overrun = [] := by
    rw [isNone_iff, noLag]
    exact Int.emod_nonneg window.range lies.positive.ne'
  rw [isRow, isNone, List.append_nil, channel.samplesIn_eq member lies]

end Trace.AreChannel

namespace Span

variable {interval : Int} {channels : List (List Span)} {choice : List Span}

/-- The segments of a choice are segments of the channels. -/
theorem IsChoice.mem_flatten (isChoice : IsChoice channels choice) {segment : Span}
    (member : segment ∈ choice) : segment ∈ channels.flatten := by
  have chosen := isChoice.chosen
  clear isChoice
  induction chosen with
  | nil => cases member
  | cons isSegment _ ih =>
      rw [List.flatten_cons, List.mem_append]
      cases member with
      | head => exact .inl isSegment
      | tail _ isLater => exact .inr (ih isLater)

end Span

section

variable {interval : Int} {channels : List (List Trace)}

/-- The windows that a search finds among channels of traces lie in one segment of every channel,
and start where some segment starts. -/
theorem commonWindows_lieIn (positive : 0 < interval)
    (areChannels : ∀ channel ∈ channels, Trace.AreChannel interval channel) :
    ∃ windows,
      (commonWindows (channels.map fun channel => channel.map Trace.span) .never).windows =
        .ok windows ∧
      ∀ window ∈ windows, window.interval = interval ∧
        (∃ segment ∈ channels.flatten, segment.start = window.start) ∧
        ∀ channel ∈ channels, ∃ segment ∈ channel, window.LiesIn segment := by
  by_cases noChannels : channels = []
  · subst noChannels
    exact ⟨[], rfl, by simp⟩
  have spansNonempty : channels.map (fun channel => channel.map Trace.span) ≠ [] := by
    simpa using noChannels
  have spansOrdered : ∀ spans ∈ channels.map (fun channel => channel.map Trace.span),
      Span.TimeOrdered spans := by
    simp only [List.mem_map, forall_exists_index, and_imp, forall_apply_eq_imp_iff₂]
    intro channel isChannel
    exact (areChannels channel isChannel).timeOrdered positive.le
  have spansSame : ∀ spans ∈ channels.map (fun channel => channel.map Trace.span),
      ∀ span ∈ spans, span.interval = interval := by
    simp only [List.mem_map, forall_exists_index, and_imp, forall_apply_eq_imp_iff₂]
    intro channel isChannel segment isSegment
    exact ((areChannels channel isChannel).taken segment isSegment).interval_eq
  obtain ⟨windows, areFound, common⟩ :=
    commonWindows_areCommon spansNonempty spansOrdered spansSame
  refine ⟨windows, areFound, ?_⟩
  intro window isWindow
  obtain ⟨sameInterval, choice, isChoice, isWindowOf⟩ := (common.mem_iff window).mp isWindow
  refine ⟨sameInterval, ?_, ?_⟩
  · obtain ⟨⟨chosen, isChosen, isStart⟩, _⟩ := Span.isWindowOf_iff.mp isWindowOf
    have isSpan := isChoice.mem_flatten isChosen
    rw [← List.map_flatten] at isSpan
    obtain ⟨segment, isSegment, rfl⟩ := List.mem_map.mp isSpan
    exact ⟨segment, isSegment, isStart⟩
  · intro channel isChannel
    obtain ⟨span, isSpan, isWithin⟩ :=
      common.exists_isWithin isWindow (List.mem_map_of_mem isChannel)
    obtain ⟨segment, isSegment, rfl⟩ := List.mem_map.mp isSpan
    obtain ⟨startsBefore, stopsAfter⟩ := Span.isWithin_iff.mp isWithin
    subst sameInterval
    exact ⟨segment, isSegment, positive, common.ordered.forward window isWindow,
      (areChannels channel isChannel).taken segment isSegment, startsBefore, stopsAfter⟩

/-- The samples of a window can be taken if every channel has a row in it, and their rows are these
rows. -/
theorem samplesOf_of_rows {window : Span} {isRow : List Trace → List Int32 → Prop}
    (haveRows : ∀ channel ∈ channels, ∃ row, window.rowOf channel = .ok row ∧ isRow channel row) :
    ∃ rows, window.samplesOf channels = .ok ⟨window.sampleCount, rows⟩ ∧
      rows.length = channels.length ∧ List.Forall₂ isRow channels rows := by
  have areRead : ∃ rows, channels.mapM window.rowOf = .ok rows ∧
      List.Forall₂ isRow channels rows := by
    induction channels with
    | nil => exact ⟨[], rfl, .nil⟩
    | cons channel later ih =>
        obtain ⟨⟨row, isRead, holds⟩, laterRows⟩ := List.forall_mem_cons.mp haveRows
        obtain ⟨rows, areRead, laterHold⟩ := ih laterRows
        refine ⟨row :: rows, ?_, .cons holds laterHold⟩
        rw [List.mapM_cons, isRead, areRead]
        rfl
  obtain ⟨rows, areRead, areRows⟩ := areRead
  refine ⟨rows, ?_, areRows.length_eq.symm, areRows⟩
  rw [Span.samplesOf, areRead]
  rfl

/-- The samples of every window that a search finds among channels of one interval can be taken,
also where the grids of the channels lie between each other. There is a row for every channel, with
as many entries as the window counts samples. Only one segment of the channel covers the window, and
the entry of a column is the first of its samples that comes as many intervals after the start of
the window, or later. -/
theorem samplesOf_commonWindows (positive : 0 < interval)
    (areChannels : ∀ channel ∈ channels, Trace.AreChannel interval channel) :
    ∃ windows,
      (commonWindows (channels.map fun channel => channel.map Trace.span) .never).windows =
        .ok windows ∧
      ∀ window ∈ windows, ∃ rows,
        window.samplesOf channels = .ok ⟨window.sampleCount, rows⟩ ∧
        rows.length = channels.length ∧
        List.Forall₂ (fun channel row => row.length = window.sampleCount ∧
          ∃ segment ∈ channel, window.isWithin segment.span ∧
            (∀ other ∈ channel, window.isWithin other.span → other = segment) ∧
            ∀ column < window.sampleCount, ∃ entry,
              (segment.timedFrom (window.start + interval * column)).head? = some entry ∧
              row[column]? = some entry.2) channels rows := by
  obtain ⟨windows, areFound, lieIn⟩ := commonWindows_lieIn positive areChannels
  refine ⟨windows, areFound, ?_⟩
  intro window isWindow
  obtain ⟨rfl, _, covered⟩ := lieIn window isWindow
  apply samplesOf_of_rows
  intro channel isChannel
  have areSegments := areChannels channel isChannel
  obtain ⟨segment, isSegment, lies⟩ := covered channel isChannel
  exact ⟨window.rowIn segment, areSegments.rowOf_eq isSegment lies, lies.length_rowIn, segment,
    isSegment, lies.isWithin, areSegments.eq_of_isWithin isSegment lies,
    fun column inside => lies.getElem?_rowIn inside⟩

/-- Two channels at 20 Hz, one half an interval off the other and with a segment of one sample. -/
def offsetChannels : List (List Trace) :=
  [[⟨0, 20, 50000, [1, 2, 3]⟩, ⟨300000, 20, 50000, [4, 5]⟩],
    [⟨-25000, 20, 50000, [11, 12, 13, 14]⟩, ⟨310000, 20, 50000, [15]⟩]]

theorem areChannels_offset :
    ∀ channel ∈ offsetChannels, Trace.AreChannel 50000 channel := by
  decide

theorem windows_offset :
    (commonWindows (offsetChannels.map fun channel => channel.map Trace.span) .never).windows =
      .ok [⟨0, 100000, 50000⟩, ⟨310000, 310000, 50000⟩] := by
  have same : ∀ spans ∈ offsetChannels.map (fun channel => channel.map Trace.span),
      ∀ span ∈ spans, span.interval = 50000 := by
    decide
  rw [offsetChannels] at same ⊢
  rw [List.map_cons, windows_commonWindows same]
  simp [Span.sweep, Span.meet, Trace.span, Trace.stop, Extent.stop]

theorem samplesOf_commonWindows_offset :
    (0 : Int) < 50000 ∧ (∀ channel ∈ offsetChannels, Trace.AreChannel 50000 channel) ∧
      (∀ window ∈ ([⟨0, 100000, 50000⟩, ⟨310000, 310000, 50000⟩] : List Span), ∃ rows,
        window.samplesOf offsetChannels = .ok ⟨window.sampleCount, rows⟩ ∧ rows.length = 2) ∧
      (⟨0, 100000, 50000⟩ : Span).samplesOf offsetChannels = .ok ⟨3, [[1, 2, 3], [12, 13, 14]]⟩ ∧
      (⟨310000, 310000, 50000⟩ : Span).samplesOf offsetChannels = .ok ⟨1, [[5], [15]]⟩ := by
  refine ⟨by decide, areChannels_offset, ?_, by rfl, by rfl⟩
  obtain ⟨windows, areFound, haveSamples⟩ :=
    samplesOf_commonWindows (by decide) areChannels_offset
  rw [windows_offset, Except.ok.injEq] at areFound
  rw [areFound]
  intro window isWindow
  obtain ⟨rows, areTaken, isLength, _⟩ := haveSamples window isWindow
  exact ⟨rows, areTaken, isLength⟩

/-- The row of a channel consists of the samples that the channel has in the window and of an
overrun of at most one sample. Where all segments start whole intervals apart, there is no overrun:
all rows consist of the samples in the window alone. -/
theorem samplesOf_overruns (positive : 0 < interval)
    (areChannels : ∀ channel ∈ channels, Trace.AreChannel interval channel) :
    ∃ windows,
      (commonWindows (channels.map fun channel => channel.map Trace.span) .never).windows =
        .ok windows ∧
      ∀ window ∈ windows, ∃ rows,
        window.samplesOf channels = .ok ⟨window.sampleCount, rows⟩ ∧
        List.Forall₂ (fun channel row => ∃ overrun, window.RowParts channel overrun row)
          channels rows ∧
        ((∀ first ∈ channels.flatten, ∀ second ∈ channels.flatten,
            interval ∣ first.start - second.start) →
          rows = channels.map fun channel => (window.samplesIn channel).map Prod.snd) := by
  obtain ⟨windows, areFound, lieIn⟩ := commonWindows_lieIn positive areChannels
  refine ⟨windows, areFound, ?_⟩
  intro window isWindow
  obtain ⟨rfl, ⟨first, isFirst, startsFirst⟩, covered⟩ := lieIn window isWindow
  have haveParts : ∀ channel ∈ channels, ∃ row, window.rowOf channel = .ok row ∧
      ∃ overrun, window.RowParts channel overrun row := by
    intro channel isChannel
    have areSegments := areChannels channel isChannel
    obtain ⟨segment, isSegment, lies⟩ := covered channel isChannel
    exact ⟨_, areSegments.rowOf_eq isSegment lies, areSegments.exists_rowParts isSegment lies⟩
  obtain ⟨rows, areTaken, _, haveOverruns⟩ := samplesOf_of_rows haveParts
  refine ⟨rows, areTaken, haveOverruns, ?_⟩
  intro aligned
  have areExact : ∀ channel ∈ channels, ∃ row, window.rowOf channel = .ok row ∧
      row = (window.samplesIn channel).map Prod.snd := by
    intro channel isChannel
    have areSegments := areChannels channel isChannel
    obtain ⟨segment, isSegment, lies⟩ := covered channel isChannel
    have onGrid : window.interval ∣ segment.start - window.start := by
      rw [← startsFirst]
      exact aligned segment (List.mem_flatten.mpr ⟨channel, isChannel, isSegment⟩) first isFirst
    exact ⟨_, areSegments.rowOf_eq isSegment lies,
      areSegments.rowIn_of_aligned isSegment lies onGrid⟩
  obtain ⟨exactRows, areAlsoTaken, _, exact⟩ := samplesOf_of_rows areExact
  have sameRows : rows = exactRows :=
    (SampleMatrix.mk.inj (Except.ok.inj (areTaken.symm.trans areAlsoTaken))).2
  rw [sameRows, ← List.forall₂_eq_eq_eq, List.forall₂_map_right_iff]
  exact exact.flip

/-- The last sample of the second row comes at 125000, behind the end of the window at 100000. -/
theorem samplesOf_overruns_offset :
    (0 : Int) < 50000 ∧ (∀ channel ∈ offsetChannels, Trace.AreChannel 50000 channel) ∧
      (⟨0, 100000, 50000⟩ : Span).samplesOf offsetChannels = .ok ⟨3, [[1, 2, 3], [12, 13, 14]]⟩ ∧
      offsetChannels.map (⟨0, 100000, 50000⟩ : Span).samplesIn =
        [[(0, 1), (50000, 2), (100000, 3)], [(25000, 12), (75000, 13)]] ∧
      ∃ overrun, (⟨0, 100000, 50000⟩ : Span).RowParts
        [⟨-25000, 20, 50000, [11, 12, 13, 14]⟩, ⟨310000, 20, 50000, [15]⟩] overrun
        [12, 13, 14] := by
  have isTaken : (⟨0, 100000, 50000⟩ : Span).samplesOf offsetChannels =
      .ok ⟨3, [[1, 2, 3], [12, 13, 14]]⟩ := by rfl
  refine ⟨by decide, areChannels_offset, isTaken, by rfl, ?_⟩
  obtain ⟨windows, areFound, haveRows⟩ :=
    samplesOf_overruns (by decide) areChannels_offset
  rw [windows_offset, Except.ok.injEq] at areFound
  rw [← areFound] at haveRows
  obtain ⟨rows, areTaken, haveOverruns, _⟩ := haveRows ⟨0, 100000, 50000⟩ List.mem_cons_self
  rw [isTaken] at areTaken
  cases areTaken
  cases haveOverruns with
  | cons _ later =>
      cases later with
      | cons second _ => exact second

end

end Waveform
