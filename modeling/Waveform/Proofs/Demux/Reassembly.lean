import Waveform.Proofs.Demux.Gathering
import Waveform.Proofs.Demux.SegmentOrder
import Waveform.Proofs.Trace.Following

/-!
# Reassembling aligned traces

Traces that start whole intervals apart, and agree where several of them give a value, are
formed into the maximal runs of what they give. In the order of their starts each of them is
covered by the last run, extends it exactly, or starts another run after a gap. So the segments
of a track depend on what its records give, but not on their order, on repetitions or on how
they overlap.
-/

namespace Waveform

namespace Segmentation

/-- Whether the segments so far are the runs of what some traces give, start whole intervals from a
base and have rates of these traces. -/
structure Reassembles (state : Segmentation) (interval base : Int) (traces : List Trace) :
    Prop where
  areRuns : AreRuns interval (GivenBy traces) state.segments
  aligned : ∀ segment ∈ state.segments, interval ∣ segment.start - base
  rates : ∀ segment ∈ state.segments, ∃ trace ∈ traces, segment.rate = trace.rate

section

variable {state next : Segmentation} {interval base slack : Int} {traces : List Trace}
  {trace rest : Trace}

theorem last_mem_segments (state : Segmentation) : state.last ∈ state.segments := by
  simp [segments]

theorem givenBy_segments {time : Int} {value : Int32} :
    GivenBy state.segments time value ↔
      GivenBy state.finished time value ∨ state.last.Gives time value := by
  rw [segments, givenBy_append, givenBy_cons]
  simp [not_givenBy_nil]

/-- A trace with samples is a run of its own. -/
theorem reassembles_first (taken : trace.TakenAt interval)
    (aligned : interval ∣ trace.start - base) :
    (⟨[], trace, 0⟩ : Segmentation).Reassembles interval base [trace] := by
  constructor
  case areRuns =>
    constructor
    case taken => simpa [segments] using taken
    case separated => exact List.pairwise_singleton _ _
    case givenBy_iff => exact fun time value => Iff.rfl
  case aligned => simpa [segments] using aligned
  case rates => simp [segments]

/-- A trace that starts no earlier than the last segment lies above the finished ones. -/
theorem Reassembles.aboveFloor_eq (reassembles : state.Reassembles interval base traces)
    (positive : 0 < interval) (ordered : state.last.start ≤ trace.start) :
    state.aboveFloor trace = .ok trace := by
  simp only [aboveFloor]
  cases isFloor : state.floor? with
  | none => rfl
  | some floor =>
      obtain ⟨segment, isLatest, rfl⟩ := Option.map_eq_some_iff.mp isFloor
      have member : segment ∈ state.finished := List.mem_of_getLast? isLatest
      have separated := (List.pairwise_append.mp reassembles.areRuns.separated).2.2
        segment member state.last (by simp)
      exact if_neg (by omega)

/-- The runs stay runs when the last one takes in what it does not cover of a trace. -/
theorem Reassembles.withLast (reassembles : state.Reassembles interval base traces)
    {samples : List Int32} (gives : ∀ time value, (state.last.append samples).Gives time value ↔
      state.last.Gives time value ∨ trace.Gives time value) :
    ({ state with last := state.last.append samples } : Segmentation).Reassembles interval base
      (traces ++ [trace]) := by
  have uniform : state.Uniform interval := reassembles.areRuns.taken
  constructor
  case areRuns =>
    constructor
    case taken => exact uniform.withLast (uniform.last.append samples)
    case separated =>
      have separated := List.pairwise_append.mp reassembles.areRuns.separated
      refine List.pairwise_append.mpr ⟨separated.1, List.pairwise_singleton _ _, ?_⟩
      intro earlier member later isLast
      rw [List.mem_singleton.mp isLast]
      exact separated.2.2 earlier member state.last (by simp)
    case givenBy_iff =>
      intro time value
      rw [givenBy_append, ← reassembles.areRuns.givenBy_iff, givenBy_segments, givenBy_segments,
        gives, givenBy_cons, or_iff_left not_givenBy_nil, or_assoc]
  case aligned =>
    intro segment member
    rcases List.mem_append.mp member with finished | isLast
    · exact reassembles.aligned segment (List.mem_append_left _ finished)
    · rw [List.mem_singleton.mp isLast]
      exact reassembles.aligned state.last state.last_mem_segments
  case rates =>
    intro segment member
    have known (other : Trace) (isOld : other ∈ state.segments) :
        ∃ former ∈ traces ++ [trace], other.rate = former.rate :=
      let ⟨former, isFormer, sameRate⟩ := reassembles.rates other isOld
      ⟨former, List.mem_append_left _ isFormer, sameRate⟩
    rcases List.mem_append.mp member with finished | isLast
    · exact known segment (List.mem_append_left _ finished)
    · rw [List.mem_singleton.mp isLast]
      exact known state.last state.last_mem_segments

/-- The runs stay runs when a trace starts after a gap. -/
theorem Reassembles.push (reassembles : state.Reassembles interval base traces)
    (positive : 0 < interval) (taken : trace.TakenAt interval)
    (aligned : interval ∣ trace.start - base) (gap : state.last.stop + interval < trace.start) :
    (state.push trace).Reassembles interval base (traces ++ [trace]) := by
  have uniform : state.Uniform interval := reassembles.areRuns.taken
  have lastOrder := uniform.last.start_le_stop positive.le
  constructor
  case areRuns =>
    constructor
    case taken => exact uniform.push taken
    case separated =>
      refine List.pairwise_append.mpr
        ⟨reassembles.areRuns.separated, List.pairwise_singleton _ _, ?_⟩
      intro earlier member later isLast
      rw [List.mem_singleton.mp isLast]
      rcases List.mem_append.mp member with finished | wasLast
      · have separated := (List.pairwise_append.mp reassembles.areRuns.separated).2.2
          earlier finished state.last (by simp)
        change earlier.stop + interval < trace.start
        omega
      · rw [List.mem_singleton.mp wasLast]
        exact gap
    case givenBy_iff =>
      intro time value
      rw [givenBy_append, ← reassembles.areRuns.givenBy_iff, givenBy_segments, givenBy_cons,
        or_iff_left not_givenBy_nil]
      rfl
  case aligned =>
    intro segment member
    rcases List.mem_append.mp member with old | isLast
    · exact reassembles.aligned segment old
    · rw [List.mem_singleton.mp isLast]
      exact aligned
  case rates =>
    intro segment member
    rcases List.mem_append.mp member with old | isLast
    · obtain ⟨former, isFormer, sameRate⟩ := reassembles.rates segment old
      exact ⟨former, List.mem_append_left _ isFormer, sameRate⟩
    · exact ⟨trace, by simp, by rw [List.mem_singleton.mp isLast]; rfl⟩

/-- A trace follows the last run if it starts no earlier and agrees with all that is given. -/
theorem Reassembles.follows (reassembles : state.Reassembles interval base traces)
    (taken : trace.TakenAt interval) (aligned : interval ∣ trace.start - base)
    (ordered : state.last.start ≤ trace.start)
    (agree : ∀ time value other, GivenBy traces time value → trace.Gives time other →
      value = other) : trace.Follows state.last interval where
  taken := taken
  earlierTaken := reassembles.areRuns.taken state.last state.last_mem_segments
  aligned := dvd_sub_of_base aligned (reassembles.aligned state.last state.last_mem_segments)
  ordered := ordered
  agree := by
    intro time value other lastGives gives
    have isGiven := (reassembles.areRuns.givenBy_iff time value).mp
      ⟨state.last, state.last_mem_segments, lastGives⟩
    exact agree time value other isGiven gives

/-- Taking in an aligned trace that starts no earlier than the last run, and agrees with what is
given, leaves the runs of what is given then. -/
theorem Added.reassembles (added : Added slack state trace next)
    (reassembles : state.Reassembles interval base traces) (positive : 0 < interval)
    (slack_nonneg : 0 ≤ slack) (slackSmall : slack < interval) (taken : trace.TakenAt interval)
    (aligned : interval ∣ trace.start - base) (ordered : state.last.start ≤ trace.start)
    (agree : ∀ time value other, GivenBy traces time value → trace.Gives time other →
      value = other) :
    next.Reassembles interval base (traces ++ [trace]) ∧ next.last.start ≤ trace.start := by
  have follows := reassembles.follows taken aligned ordered agree
  have uncut := reassembles.aboveFloor_eq positive ordered
  have isTrace {rest : Trace} (cut : state.aboveFloor trace = .ok rest) : trace = rest :=
    Except.ok.inj (uncut.symm.trans cut)
  have traceOrder := taken.start_le_stop positive.le
  cases added with
  | skipped rest cut isEmpty =>
      obtain rfl := isTrace cut
      exact absurd isEmpty taken.nonempty
  | covered rest remains starts stops =>
      obtain rfl := isTrace remains.cut
      refine ⟨?_, ordered⟩
      have unchanged : ({ state with last := state.last.append [] } : Segmentation) = state := by
        simp [Trace.append]
      rw [← unchanged]
      apply reassembles.withLast
      intro time value
      rw [show state.last.append [] = state.last by simp [Trace.append]]
      refine (or_iff_left_of_imp fun gives => ?_).symm
      have notBehind := gives.le_stop (by simpa [taken.interval_eq] using positive.le)
      exact follows.gives_of_covered positive (notBehind.trans stops) gives
  | continued rest remains behind adjacent =>
      obtain rfl := isTrace remains.cut
      refine ⟨reassembles.withLast fun time value => ?_, ordered⟩
      exact follows.gives_append_drop positive (follows.next_eq_of_continues slackSmall adjacent)
  | extended rest remains starts meets inStep =>
      obtain rfl := isTrace remains.cut
      refine ⟨reassembles.withLast fun time value => ?_, ordered⟩
      exact follows.gives_append_drop positive (follows.next_eq_of_covered positive meets)
  | opened rest remains behind apart =>
      obtain rfl := isTrace remains.cut
      exact ⟨reassembles.push positive taken aligned
        (follows.gap_of_apart slack_nonneg behind apart), le_rfl⟩
  | preceded rest remains ahead | straggled rest remains ahead =>
      obtain rfl := isTrace remains.cut
      omega
  | led rest remains ahead =>
      obtain rfl := isTrace remains.cut
      omega
  | discarded rest later remains meets isMet outOfStep
  | corrected rest later remains meets isMet outOfStep =>
      obtain rfl := isTrace remains.cut
      exact absurd (follows.inStep slack_nonneg) outOfStep

/-- A run over aligned traces that agree, in the order of their starts, leaves the runs of what they
give. -/
theorem foldlM_add_reassembles (tolerance : Tolerance) (later : List Trace)
    (reassembles : state.Reassembles interval base traces) (positive : 0 < interval)
    (slackSmall : tolerance.slack interval < interval)
    (taken : ∀ trace ∈ later, trace.TakenAt interval)
    (aligned : ∀ trace ∈ later, interval ∣ trace.start - base)
    (sorted : later.Pairwise fun first second => first.start ≤ second.start)
    (ordered : ∀ trace ∈ later, state.last.start ≤ trace.start)
    (agree : ∀ time value other, GivenBy (traces ++ later) time value →
      GivenBy (traces ++ later) time other → value = other) :
    ∃ final, later.foldlM (add tolerance) state = .ok final ∧
      final.Reassembles interval base (traces ++ later) := by
  induction later generalizing state traces with
  | nil =>
      rw [List.append_nil]
      exact ⟨state, rfl, reassembles⟩
  | cons trace later ih =>
      have traceTaken := taken trace List.mem_cons_self
      have lastTaken := reassembles.areRuns.taken state.last state.last_mem_segments
      obtain ⟨next, isNext, added⟩ := add_cases tolerance positive lastTaken traceTaken
      obtain ⟨nextReassembles, nextOrdered⟩ := added.reassembles reassembles positive
        (tolerance.slack_nonneg positive.le) slackSmall traceTaken
        (aligned trace List.mem_cons_self) (ordered trace List.mem_cons_self) (by
          intro time value other isGiven gives
          apply agree time value other
          · exact givenBy_append.mpr (.inl isGiven)
          · exact givenBy_append.mpr (.inr (givenBy_cons.mpr (.inl gives))))
      rw [List.foldlM_cons, isNext]
      rw [List.append_cons] at agree ⊢
      apply ih nextReassembles
      · exact fun other member => taken other (List.mem_cons_of_mem trace member)
      · exact fun other member => aligned other (List.mem_cons_of_mem trace member)
      · exact (List.pairwise_cons.mp sorted).2
      · intro other member
        exact nextOrdered.trans ((List.pairwise_cons.mp sorted).1 other member)
      · exact agree

end

end Segmentation

theorem givenBy_congr {first second : List Trace} (same : ∀ trace, trace ∈ first ↔ trace ∈ second)
    {time : Int} {value : Int32} : GivenBy first time value ↔ GivenBy second time value := by
  simp only [GivenBy]
  simp only [same]

/-- Aligned traces that agree are formed into the runs of what they give. -/
theorem segmentTraces_areRuns (tolerance : Tolerance) {traces : List Trace} {interval base : Int}
    (positive : 0 < interval) (slackSmall : tolerance.slack interval < interval)
    (taken : ∀ trace ∈ traces, trace.TakenAt interval)
    (aligned : ∀ trace ∈ traces, interval ∣ trace.start - base)
    (agree : ∀ time value other, GivenBy traces time value → GivenBy traces time other →
      value = other) :
    ∃ segments corrections, segmentTraces tolerance traces = .ok (segments, corrections) ∧
      AreRuns interval (GivenBy traces) segments ∧
      ∀ segment ∈ segments, ∃ trace ∈ traces, segment.rate = trace.rate := by
  have sameTraces (trace : Trace) : trace ∈ traces.mergeSort Trace.startsBy ↔ trace ∈ traces :=
    List.mem_mergeSort
  have inOrder := Trace.pairwise_startsBy traces
  simp only [segmentTraces]
  generalize traces.mergeSort Trace.startsBy = sorted at sameTraces inOrder ⊢
  cases sorted with
  | nil =>
      refine ⟨[], 0, rfl, ⟨by simp, List.Pairwise.nil, fun time value => ?_⟩, by simp⟩
      exact givenBy_congr sameTraces
  | cons first later =>
      have firstTaken := taken first ((sameTraces first).mp List.mem_cons_self)
      have isRun := Segmentation.reassembles_first firstTaken
        (aligned first ((sameTraces first).mp List.mem_cons_self))
      have laterMember {trace : Trace} (member : trace ∈ later) : trace ∈ traces :=
        (sameTraces trace).mp (List.mem_cons_of_mem first member)
      obtain ⟨final, isFinal, reassembles⟩ := Segmentation.foldlM_add_reassembles tolerance later
        isRun positive slackSmall (fun trace member => taken trace (laterMember member))
        (fun trace member => aligned trace (laterMember member)) (List.pairwise_cons.mp inOrder).2
        (List.pairwise_cons.mp inOrder).1 (by
          intro time value other isGiven alsoGiven
          exact agree time value other ((givenBy_congr sameTraces).mp isGiven)
            ((givenBy_congr sameTraces).mp alsoGiven))
      refine ⟨final.segments, final.corrections, ?_, ?_, ?_⟩
      · dsimp only
        rw [isFinal]
        rfl
      · exact reassembles.areRuns.congr fun _ _ => givenBy_congr sameTraces
      · intro segment member
        obtain ⟨trace, isTrace, sameRate⟩ := reassembles.rates segment member
        exact ⟨trace, (sameTraces trace).mp isTrace, sameRate⟩

/-- The traces of the records that are kept under a key and can be decoded. -/
def Selection.decodedUnder (selection : Selection) (key : TrackKey) (buffers : List (List UInt8)) :
    List Trace :=
  decodedTraces key.interval (selection.keptUnder key buffers)

/-- Whether a split lists, under a key, segments of some starts and samples. -/
def Split.Lists (split : Split) (key : TrackKey) (contents : List (Int × List Int32)) : Prop :=
  ∃ segments, (key, segments) ∈ split.tracks ∧
    segments.map (fun segment => (segment.start, segment.samples)) = contents

namespace Demux

/-- The track of a key whose records are aligned gathers what these give. -/
theorem trackOf_gathered (selection : Selection) (tolerance : Tolerance) {key : TrackKey}
    {buffers : List (List UInt8)} {base : Int} (positive : 0 < key.interval)
    (slackSmall : tolerance.slack key.interval < key.interval)
    (aligned : ∀ trace ∈ selection.decodedUnder key buffers, key.interval ∣ trace.start - base) :
    (((start selection tolerance).receiveRecords buffers).trackOf key).Gathered base
      (selection.keptUnder key buffers) := by
  rw [trackOf_receiveRecords]
  have begun : ((start selection tolerance).trackOf key).Gathered base [] :=
    Track.gathered_ofKey positive base
  exact begun.receiveAll rfl slackSmall (selection.keptUnder key buffers) aligned

/-- If the records kept under a key are aligned and agree, finishing lists under it the runs of what
they give, at rates that they have. -/
theorem finish_lists_runs (selection : Selection) (tolerance : Tolerance) {key : TrackKey}
    {buffers : List (List UInt8)}
    (consistent : Consistent key.interval (selection.decodedUnder key buffers))
    (slackSmall : tolerance.slack key.interval < key.interval) :
    ∃ split segments, ((start selection tolerance).receiveRecords buffers).finish = .ok split ∧
      AreRuns key.interval (GivenBy (selection.decodedUnder key buffers)) segments ∧
      (∀ segment ∈ segments, ∃ record ∈ selection.keptUnder key buffers,
        segment.rate = record.header.sampleRate) ∧
      ∀ others, (key, others) ∈ split.tracks ↔ others = segments ∧ segments ≠ [] := by
  obtain ⟨split, isSplit, listed⟩ := finish_lists selection tolerance buffers
  suffices formed : ∃ segments corrections, segmentTraces tolerance
      (((start selection tolerance).receiveRecords buffers).trackOf key).close.closed =
        .ok (segments, corrections) ∧
      AreRuns key.interval (GivenBy (selection.decodedUnder key buffers)) segments ∧
      ∀ segment ∈ segments, ∃ record ∈ selection.keptUnder key buffers,
        segment.rate = record.header.sampleRate by
    obtain ⟨segments, corrections, isFormed, areRuns, rates⟩ := formed
    refine ⟨split, segments, isSplit, areRuns, rates, ?_⟩
    intro others
    rw [listed, isFormed]
    constructor
    · rintro ⟨nonempty, _, same⟩
      cases same
      exact ⟨rfl, nonempty⟩
    · rintro ⟨rfl, nonempty⟩
      exact ⟨nonempty, corrections, rfl⟩
  rcases List.eq_nil_or_concat (selection.keptUnder key buffers)
    with noRecords | ⟨_, record, isLast⟩
  · have isNew : ((start selection tolerance).receiveRecords buffers).trackOf key =
        Track.ofKey key := by
      rw [trackOf_receiveRecords]
      change (selection.keptUnder key buffers).foldl _ _ = _
      rw [noRecords]
      rfl
    rw [isNew, segmentTraces_ofKey]
    refine ⟨[], 0, rfl, ⟨by simp, List.Pairwise.nil, ?_⟩, by simp⟩
    simp [Selection.decodedUnder, noRecords, decodedTraces]
  · have positive : 0 < key.interval :=
      Selection.pos_of_keptUnder (show record ∈ selection.keptUnder key buffers by simp [isLast])
    obtain ⟨base, aligned⟩ := consistent.exists_base
    have gathered := trackOf_gathered selection tolerance positive slackSmall aligned
    have sameKey := ((start selection tolerance).receiveRecords buffers).key_trackOf key
    generalize ((start selection tolerance).receiveRecords buffers).trackOf key = track
      at gathered sameKey ⊢
    subst sameKey
    obtain ⟨segments, corrections, isFormed, areRuns, rates⟩ := segmentTraces_areRuns tolerance
      positive slackSmall gathered.wellFormed.mem_close gathered.aligned (by
        intro time value other isGiven alsoGiven
        exact consistent.agree time value other ((gathered.givenBy_iff time value).mp isGiven)
          ((gathered.givenBy_iff time other).mp alsoGiven))
    refine ⟨segments, corrections, isFormed, areRuns.congr gathered.givenBy_iff, ?_⟩
    intro segment member
    obtain ⟨trace, isTrace, sameRate⟩ := rates segment member
    rw [sameRate]
    exact gathered.rates trace ((Track.mem_closed_close.mp isTrace).imp_right And.left)

/-- Finishing lists under a key whose records are aligned and agree exactly the maximal runs of
what these records give, and lists nothing if none of them can be decoded. Any other records
that give the same, in whichever order, with whichever repetitions and overlaps, lead to the
same runs. -/
theorem finish_reassembles (selection : Selection) (tolerance : Tolerance) (key : TrackKey)
    (buffers : List (List UInt8))
    (consistent : Consistent key.interval (selection.decodedUnder key buffers))
    (slackSmall : tolerance.slack key.interval < key.interval) :
    ∃ split segments, ((start selection tolerance).receiveRecords buffers).finish = .ok split ∧
      AreRuns key.interval (GivenBy (selection.decodedUnder key buffers)) segments ∧
      (∀ segment ∈ segments, ∃ record ∈ selection.keptUnder key buffers,
        segment.rate = record.header.sampleRate) ∧
      (∀ others, (key, others) ∈ split.tracks ↔ others = segments ∧ segments ≠ []) ∧
      (selection.decodedUnder key buffers = [] → ∀ others, (key, others) ∉ split.tracks) ∧
      ∀ otherBuffers, Consistent key.interval (selection.decodedUnder key otherBuffers) →
        (∀ time value, GivenBy (selection.decodedUnder key buffers) time value ↔
          GivenBy (selection.decodedUnder key otherBuffers) time value) →
        ∃ otherSplit,
          ((start selection tolerance).receiveRecords otherBuffers).finish = .ok otherSplit ∧
          ∀ contents, otherSplit.Lists key contents ↔ split.Lists key contents := by
  obtain ⟨split, segments, isSplit, areRuns, rates, listed⟩ :=
    finish_lists_runs selection tolerance consistent slackSmall
  have noSegments (isEmpty : selection.decodedUnder key buffers = []) : segments = [] := by
    rw [areRuns.nil_iff, isEmpty]
    exact fun _ _ => not_givenBy_nil
  refine ⟨split, segments, isSplit, areRuns, rates, listed, ?_, ?_⟩
  · intro isEmpty others member
    exact ((listed others).mp member).2 (noSegments isEmpty)
  · intro otherBuffers otherConsistent same
    obtain ⟨otherSplit, otherSegments, isOther, otherRuns, _, otherListed⟩ :=
      finish_lists_runs selection tolerance otherConsistent slackSmall
    have sameNone : segments = [] ↔ otherSegments = [] := by
      rw [areRuns.nil_iff, otherRuns.nil_iff]
      simp only [same]
    refine ⟨otherSplit, isOther, ?_⟩
    intro contents
    simp only [Split.Lists]
    simp only [listed, otherListed]
    by_cases isEmpty : segments = []
    · simp [isEmpty, sameNone.mp isEmpty]
    · obtain ⟨record, isKept, _⟩ := rates (segments.head isEmpty) (List.head_mem isEmpty)
      have sameContents := (areRuns.congr same).unique otherRuns (Selection.pos_of_keptUnder isKept)
      simp [isEmpty, mt sameNone.mpr isEmpty, sameContents]

/-- A record of the samples 1 and 2 at 20 Hz. -/
def briefRecord : List UInt8 :=
  [48, 48, 48, 48, 48, 49, 68, 32, 65, 78, 77, 79, 32, 48, 48, 66, 72, 90, 73, 85,
    7, 220, 0, 61, 0, 0, 0, 0, 0, 0, 0, 2, 0, 20, 0, 1, 0, 0, 0, 1, 0, 0, 0, 0, 0, 56, 0, 48,
    3, 232, 0, 0, 1, 1, 8, 0, 0, 1, 0, 2]

/-- The key of that record. -/
def briefKey : TrackKey := ⟨⟨"IU", "ANMO", "00", "BHZ"⟩, 50000⟩

set_option maxRecDepth 4000 in
theorem decodedUnder_briefRecord :
    Selection.everything.decodedUnder briefKey [briefRecord, briefRecord] =
      [⟨1330560000000000, 20, 50000, [1, 2]⟩, ⟨1330560000000000, 20, 50000, [1, 2]⟩] := by
  have network : textAt briefRecord 18 2 = "IU" := by decide +kernel
  have station : textAt briefRecord 8 5 = "ANMO" := by decide +kernel
  have location : textAt briefRecord 13 2 = "00" := by decide +kernel
  have channel : textAt briefRecord 15 3 = "BHZ" := by decide +kernel
  have payload : decodePayload 1 .bigEndian [0, 1, 0, 2] 2 = .ok [1, 2] := by
    have pieces : chunks 2 [0, 1, 0, 2] = [[0, 1], [0, 2]] := by simp [chunks]
    have words : Int32.ofInt (ByteOrder.bigEndian.signed [0, 1]) = 1 ∧
        Int32.ofInt (ByteOrder.bigEndian.signed [0, 2]) = 2 := by decide
    simp [decodePayload, Encoding.ofCode?, Encoding.decode, Encoding.sampleWidth, FixedWidth.decode,
      FixedWidth.neededBytes, UInt64.size, pieces, words]
  let record : Record := ⟨Header.read .bigEndian briefRecord, [.dataFormat ⟨1, .bigEndian, 8⟩],
    1330560000000000, briefRecord⟩
  have isKept : Verdict.ofBytes Selection.everything briefRecord =
      .kept record (TrackKey.ofRecord record.channel 50000) := rfl
  have isKey : TrackKey.ofRecord record.channel 50000 = briefKey := by
    have names : record.channel = ⟨"IU", "ANMO", "00", "BHZ"⟩ := by
      rw [← network, ← station, ← location, ← channel]
      rfl
    rw [names]
    decide +kernel
  have samples : record.samples = .ok [1, 2] := by
    have decoded : record.samples =
      (decodePayload 1 .bigEndian [0, 1, 0, 2] 2).mapError .payload := rfl
    rw [decoded, payload]
    rfl
  have trace : record.trace? 50000 = some ⟨1330560000000000, 20, 50000, [1, 2]⟩ := by
    have rate : record.header.sampleRate = 20 := by decide
    rw [Record.trace?, samples, rate]
  have under : (Verdict.ofBytes Selection.everything briefRecord).keptUnder? briefKey =
      some record := by
    rw [isKept, isKey]
    simp [Verdict.keptUnder?]
  simp only [Selection.decodedUnder, Selection.keptUnder, decodedTraces, List.filterMap_cons, under,
    List.filterMap_nil]
  simp only [briefKey, trace]

/-- A record that is repeated gives its samples once. -/
theorem finish_reassembles_repeated :
    ∃ split, ((start Selection.everything Tolerance.standard).receiveRecords
        [briefRecord, briefRecord]).finish = .ok split ∧
      split.Lists briefKey [(1330560000000000, [1, 2])] := by
  have positive : 0 < briefKey.interval := by decide
  have isRun : AreRuns briefKey.interval
      (GivenBy (Selection.everything.decodedUnder briefKey [briefRecord, briefRecord]))
      [⟨1330560000000000, 20, 50000, [1, 2]⟩] := by
    rw [decodedUnder_briefRecord]
    constructor
    case taken => simpa using ⟨by simp, rfl⟩
    case separated => exact List.pairwise_singleton _ _
    case givenBy_iff => simp [GivenBy]
  have consistent : Consistent briefKey.interval
      (Selection.everything.decodedUnder briefKey [briefRecord, briefRecord]) := by
    rw [decodedUnder_briefRecord]
    constructor
    case aligned => simp
    case agree =>
      intro time value other
      simp only [GivenBy, List.mem_cons, List.not_mem_nil, or_false, or_self, exists_eq_left]
      rintro ⟨index, found, rfl⟩ alsoGiven
      rw [Trace.gives_timeAt_iff (by decide), found] at alsoGiven
      exact Option.some.inj alsoGiven
  obtain ⟨split, segments, isSplit, areRuns, _, listed, _⟩ :=
    finish_reassembles Selection.everything Tolerance.standard briefKey [briefRecord, briefRecord]
      consistent (by decide)
  have contents := areRuns.unique isRun positive
  refine ⟨split, isSplit, segments, (listed segments).mpr ⟨rfl, ?_⟩, contents⟩
  rintro rfl
  cases contents

end Demux

end Waveform
