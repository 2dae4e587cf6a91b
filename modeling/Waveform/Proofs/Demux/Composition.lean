import Mathlib.Data.List.Induction
import Waveform.Proofs.Demux.Reassembly
import Waveform.Proofs.Demux.StoredRuns
import Waveform.Proofs.Payload.Counts

/-!
# What tracks are made of

Each record that is kept and can be decoded puts its samples at the end of one trace of its track.
A trace starts where the first of its records does, and every other one starts about where its
samples come to lie, as counted from there: however many records a trace is made of, what each of
them is early or late does not add up.
-/

namespace Waveform

/-- Whether a trace of an interval is made of pieces, put one behind the other: it starts where the
first piece does, and no piece starts further than the slack from where its first sample lies. -/
structure Trace.IsMadeOf (trace : Trace) (interval slack : Int) (pieces : List Trace) : Prop where
  interval : trace.interval = interval
  samples : trace.samples = pieces.flatMap Trace.samples
  nonempty : ∀ piece ∈ pieces, piece.samples ≠ []
  start : ∀ first later, pieces = first :: later → trace.start = first.start
  near : ∀ before piece after, pieces = before ++ piece :: after →
    |piece.start - trace.extent.timeAt (before.flatMap Trace.samples).length| ≤ slack

namespace Trace

variable {trace piece : Trace} {interval slack : Int} {pieces : List Trace}

theorem isMadeOf_nil (sameInterval : trace.interval = interval) (isEmpty : trace.samples = []) :
    trace.IsMadeOf interval slack [] where
  interval := sameInterval
  samples := isEmpty
  nonempty := by simp
  start := by simp
  near := by simp

theorem IsMadeOf.pieces_eq_nil (made : trace.IsMadeOf interval slack pieces)
    (isEmpty : trace.samples = []) : pieces = [] := by
  cases pieces with
  | nil => rfl
  | cons first later =>
      have noSamples := made.samples.symm.trans isEmpty
      rw [List.flatMap_cons, List.append_eq_nil_iff] at noSamples
      exact absurd noSamples.1 (made.nonempty first List.mem_cons_self)

/-- A piece that starts about where the trace goes on is put at its end. -/
theorem IsMadeOf.append (made : trace.IsMadeOf interval slack pieces)
    (nonempty : piece.samples ≠ []) (starts : pieces = [] → trace.start = piece.start)
    (near : |piece.start - trace.next| ≤ slack) :
    (trace.append piece.samples).IsMadeOf interval slack (pieces ++ [piece]) where
  interval := made.interval
  samples := by
    rw [samples_append, made.samples, List.flatMap_append, List.flatMap_singleton]
  nonempty := by
    intro other member
    rcases List.mem_append.mp member with isOld | isNew
    · exact made.nonempty other isOld
    · rw [List.mem_singleton.mp isNew]
      exact nonempty
  start := by
    intro first later isParted
    cases pieces with
    | nil =>
        cases isParted
        exact starts rfl
    | cons oldFirst oldLater =>
        injection isParted with sameFirst _
        exact made.start first oldLater (sameFirst ▸ rfl)
  near := by
    intro before other after isParted
    cases after using List.reverseRecOn with
    | nil =>
        have parts := List.append_inj' isParted rfl
        obtain ⟨rfl, isPiece⟩ := parts
        cases isPiece
        rw [← made.samples]
        exact near
    | append_singleton between last _ =>
        rw [← List.cons_append, ← List.append_assoc] at isParted
        exact made.near before other between (List.append_inj' isParted rfl).1

/-- A record that starts about where the trace goes on adds the piece that it is decoded to. -/
theorem IsMadeOf.extendedBy (made : trace.IsMadeOf interval slack pieces) {record : Record}
    (announces : record.header.sampleCount ≠ 0 ∧ record.header.sampleCount < UInt16.size)
    (starts : pieces = [] → trace.start = record.start)
    (near : |record.start - trace.next| ≤ slack) :
    (trace.extendedBy record).IsMadeOf interval slack
      (pieces ++ (record.trace? interval).toList) := by
  rw [Trace.extendedBy, Record.trace?]
  cases decoded : record.samples with
  | error error =>
      rw [Option.toList_none, List.append_nil]
      exact made
  | ok samples =>
      have nonempty : samples ≠ [] := by
        intro isEmpty
        have isCount := Record.length_samples announces.2 decoded
        rw [isEmpty] at isCount
        exact announces.1 isCount.symm
      let piece : Trace := ⟨record.start, record.header.sampleRate, interval, samples⟩
      have isNonempty : piece.samples ≠ [] := nonempty
      exact made.append isNonempty starts near

end Trace

/-- Whether the traces of a track are made of pieces: each closed trace, which has samples, of one
group of them, and the working trace, which may be without samples yet, of the pieces that came
last. -/
structure Track.IsMadeOf (track : Track) (slack : Int) (groups : List (List Trace))
    (last : List Trace) : Prop where
  closed : List.Forall₂ (fun trace pieces => trace.IsMadeOf track.key.interval slack pieces)
    track.closed groups
  nonempty : ∀ trace ∈ track.closed, trace.samples ≠ []
  working : ∀ trace, track.working = some trace →
    trace.IsMadeOf track.key.interval slack last
  noWorking : track.working = none → last = []

namespace Track

variable {track : Track} {slack : Int} {groups : List (List Trace)} {last : List Trace}

theorem isMadeOf_ofKey (key : TrackKey) (slack : Int) : (ofKey key).IsMadeOf slack [] [] where
  closed := .nil
  nonempty := by simp [ofKey]
  working := by simp [ofKey]
  noWorking := fun _ => rfl

/-- Closing a track loses no piece: a working trace that is dropped has none. -/
theorem IsMadeOf.close (made : track.IsMadeOf slack groups last) :
    ∃ closedGroups, closedGroups.flatten = groups.flatten ++ last ∧
      List.Forall₂ (fun trace pieces => trace.IsMadeOf track.key.interval slack pieces)
        track.close.closed closedGroups ∧
      ∀ trace ∈ track.close.closed, trace.samples ≠ [] := by
  rw [Track.close, closedWorking]
  cases isWorking : track.working with
  | none =>
      refine ⟨groups, ?_, ?_, ?_⟩
      · rw [made.noWorking isWorking, List.append_nil]
      · simpa using made.closed
      · simpa using made.nonempty
  | some trace =>
      have traceMade := made.working trace isWorking
      by_cases isEmpty : trace.samples = []
      · refine ⟨groups, ?_, ?_, ?_⟩
        · rw [traceMade.pieces_eq_nil isEmpty, List.append_nil]
        · simpa [isEmpty] using made.closed
        · simpa [isEmpty] using made.nonempty
      · refine ⟨groups ++ [last], ?_, ?_, ?_⟩
        · rw [List.flatten_append, List.flatten_singleton]
        · simp only [isEmpty, if_false]
          exact List.rel_append made.closed (.cons traceMade .nil)
        · simp only [isEmpty, if_false]
          exact List.forall_mem_append.mpr ⟨made.nonempty, List.forall_mem_singleton.mpr isEmpty⟩

variable {tolerance : Tolerance} {record : Record}

/-- It is enough to know what the trace that a record is put at the end of is made of then. -/
theorem isMadeOf_receive_of_prepare {ready : Track} {trace : Trace}
    (prepared : track.prepare (track.jointOf tolerance record) record = (ready, trace))
    (closed : List.Forall₂ (fun trace pieces => trace.IsMadeOf track.key.interval slack pieces)
      ready.closed groups)
    (nonempty : ∀ trace ∈ ready.closed, trace.samples ≠ [])
    (extended : (trace.extendedBy record).IsMadeOf track.key.interval slack last) :
    (track.receive tolerance record).IsMadeOf slack groups last := by
  have isClosed : (track.receive tolerance record).closed = ready.closed := by
    rw [Track.receive, prepared]
  have isWorking : (track.receive tolerance record).working = some (trace.extendedBy record) := by
    rw [Track.receive, prepared]
  constructor
  case closed =>
    rw [isClosed, key_receive]
    exact closed
  case nonempty =>
    rw [isClosed]
    exact nonempty
  case working =>
    intro other isOther
    rw [isWorking, Option.some.injEq] at isOther
    rw [key_receive, ← isOther]
    exact extended
  case noWorking =>
    intro noWorking
    rw [isWorking] at noWorking
    cases noWorking

/-- A record that can be decoded adds one piece, to one trace; any other one adds none. -/
theorem IsMadeOf.receive (positive : 0 < track.key.interval)
    (made : track.IsMadeOf (tolerance.slack track.key.interval) groups last)
    (announces : record.header.sampleCount ≠ 0 ∧ record.header.sampleCount < UInt16.size) :
    ∃ newGroups newLast,
      newGroups.flatten ++ newLast =
        groups.flatten ++ last ++ (record.trace? track.key.interval).toList ∧
      (track.receive tolerance record).IsMadeOf (tolerance.slack track.key.interval) newGroups
        newLast := by
  rcases prepare_cases track tolerance record with
    ⟨trace, isWorking, nonempty, near, prepared⟩ |
    ⟨ready, trace, prepared, isClosed, isEmpty, starts, _⟩
  · -- The record continues the working trace.
    have traceMade := made.working trace isWorking
    have isNear : |record.start - trace.next| ≤ tolerance.slack track.key.interval := by
      rw [Trace.next_of_nonempty nonempty, traceMade.interval]
      exact near
    have startsThere : last = [] → trace.start = record.start := by
      intro noPieces
      have noSamples := traceMade.samples
      rw [noPieces] at noSamples
      exact absurd noSamples nonempty
    refine ⟨groups, last ++ (record.trace? track.key.interval).toList, ?_, ?_⟩
    · rw [List.append_assoc]
    · apply isMadeOf_receive_of_prepare prepared made.closed made.nonempty
      exact traceMade.extendedBy announces startsThere isNear
  · -- The record starts a trace.
    obtain ⟨closedGroups, isFlatten, closed, allNonempty⟩ := made.close
    have sameInterval : trace.interval = track.key.interval := by
      have isPrepared := interval_prepare
        (fun other isOther => (made.working other isOther).interval)
        (track.jointOf tolerance record) record
      rw [prepared] at isPrepared
      exact isPrepared
    have isNear : |record.start - trace.next| ≤ tolerance.slack track.key.interval := by
      have goesOn : trace.next = record.start := by
        simp [Trace.next, Extent.timeAt, isEmpty, starts]
      rw [goesOn, Int.sub_self, abs_zero]
      exact tolerance.slack_nonneg (Int.le_of_lt positive)
    refine ⟨closedGroups, (record.trace? track.key.interval).toList, ?_, ?_⟩
    · rw [isFlatten]
    · rw [← isClosed] at closed allNonempty
      apply isMadeOf_receive_of_prepare prepared closed allNonempty
      exact (Trace.isMadeOf_nil sameInterval isEmpty).extendedBy announces (fun _ => starts) isNear

/-- Records that are received one after the other add the pieces that they are decoded to, in their
order. -/
theorem IsMadeOf.receiveAll {interval : Int} (isInterval : track.key.interval = interval)
    (positive : 0 < interval) (made : track.IsMadeOf (tolerance.slack interval) groups last)
    (records : List Record)
    (announce : ∀ record ∈ records,
      record.header.sampleCount ≠ 0 ∧ record.header.sampleCount < UInt16.size) :
    ∃ newGroups newLast,
      newGroups.flatten ++ newLast = groups.flatten ++ last ++ decodedTraces interval records ∧
      (records.foldl (fun track record => track.receive tolerance record) track).IsMadeOf
        (tolerance.slack interval) newGroups newLast := by
  induction records generalizing track groups last with
  | nil => exact ⟨groups, last, (List.append_nil _).symm, made⟩
  | cons record later ih =>
      subst isInterval
      obtain ⟨announces, laterAnnounce⟩ := List.forall_mem_cons.mp announce
      obtain ⟨nextGroups, nextLast, isNext, nextMade⟩ := made.receive positive announces
      have sameInterval : (track.receive tolerance record).key.interval = track.key.interval := by
        rw [key_receive]
      obtain ⟨newGroups, newLast, isNew, newMade⟩ := ih sameInterval nextMade laterAnnounce
      refine ⟨newGroups, newLast, ?_, newMade⟩
      rw [isNew, isNext, List.append_assoc, decodedTraces_cons]

end Track

namespace Demux

/-- After any records, the track of a key is made of those that are kept under the key and can be
decoded, in the order in which they came. -/
theorem trackOf_isMadeOf (selection : Selection) (tolerance : Tolerance)
    (buffers : List (List UInt8)) (key : TrackKey) :
    ∃ groups last, groups.flatten ++ last = selection.decodedUnder key buffers ∧
      (((start selection tolerance).receiveRecords buffers).trackOf key).IsMadeOf
        (tolerance.slack key.interval) groups last := by
  have isRun : ((start selection tolerance).receiveRecords buffers).trackOf key =
      (selection.keptUnder key buffers).foldl
        (fun track record => track.receive tolerance record) (Track.ofKey key) :=
    trackOf_receiveRecords _ _ _
  have announce : ∀ record ∈ selection.keptUnder key buffers,
      record.header.sampleCount ≠ 0 ∧ record.header.sampleCount < UInt16.size := by
    intro record member
    exact Selection.sampleCount_of_keptUnder member
  have begun := Track.isMadeOf_ofKey key (tolerance.slack key.interval)
  rw [isRun, Selection.decodedUnder]
  cases isKept : selection.keptUnder key buffers with
  | nil => exact ⟨[], [], rfl, begun⟩
  | cons first later =>
      have positive : 0 < key.interval :=
        Selection.pos_of_keptUnder (isKept.symm ▸ List.mem_cons_self)
      rw [isKept] at announce
      exact begun.receiveAll rfl positive (first :: later) announce

end Demux

/-! ## Tracks in a pool -/

/-- The track with the samples of its traces read from their blocks. -/
def StoredTrack.load (track : StoredTrack) : Stored Track := do
  let working ← track.working.mapM StoredTrace.load
  let closed ← track.closed.mapM StoredTrace.load
  return ⟨track.key, working, closed, track.qualities, track.calibrations⟩

/-- A track in a pool is loaded as the plain one that it stands for. -/
theorem PairedTrack.load_eq {blockSizes : List Nat} {pools : List Pool}
    {rest : List (StoredTrace × Trace)} {track : PairedTrack}
    (holds : Holds blockSizes pools (track.entries ++ rest)) :
    track.stored.load pools = (.ok track.plain, pools) := by
  rw [PairedTrack.entries, List.append_assoc] at holds
  have workingLoaded : (track.working.map Prod.fst).mapM StoredTrace.load pools =
      (.ok (track.working.map Prod.snd), pools) := by
    cases isWorking : track.working with
    | none => rfl
    | some entry =>
        rw [isWorking] at holds
        exact Process.map_of_ok (PairedDemux.load_eq holds) some
  have closedLoaded := PairedDemux.loadAll_eq track.closed
    (holds.perm (List.perm_append_comm_assoc _ _ _))
  rw [StoredTrack.load]
  exact (Process.bind_of_ok workingLoaded _).trans (Process.bind_of_ok closedLoaded _)

namespace StoredDemux

variable {blockSizes : List Nat} {pools : List Pool} {others : List (StoredTrace × Trace)}
  {pool : Nat}

/-- Whatever records come, the samples of those that are kept under a key and can be decoded are in
the traces of its track, in the order in which the records came: each record is one piece of one
trace, which starts where the first of its pieces does and never strays from the starts of the
others by more than the slack. -/
theorem receiveRecords_isMadeOf (selection : Selection) (tolerance : Tolerance)
    (holds : Holds blockSizes pools others) (inside : pool < blockSizes.length)
    (buffers : List (List UInt8)) :
    ∃ final changed,
      (start selection tolerance pool).receiveRecords buffers pools = (.ok final, changed) ∧
      ∀ key, ∃ track groups last,
        (final.trackOf key).load changed = (.ok track, changed) ∧ track.key = key ∧
        groups.flatten ++ last = selection.decodedUnder key buffers ∧
        track.IsMadeOf (tolerance.slack key.interval) groups last := by
  obtain ⟨final, changed, isReceived, isPlain, _, finalHolds⟩ :=
    PairedDemux.receiveRecords_start holds inside selection tolerance buffers
  refine ⟨final.stored, changed, isReceived, fun key => ?_⟩
  obtain ⟨groups, last, areAll, made⟩ := Demux.trackOf_isMadeOf selection tolerance buffers key
  rw [isPlain, PairedDemux.plain_trackOf] at made
  obtain ⟨otherEntries, isPerm, _⟩ := PairedDemux.exists_others final.tracks key
  have trackHolds :
      Holds blockSizes changed ((final.trackOf key).entries ++ (otherEntries ++ others)) := by
    rw [← List.append_assoc]
    exact finalHolds.perm (isPerm.append_right others)
  refine ⟨(final.trackOf key).plain, groups, last, ?_, final.key_trackOf key, areAll, made⟩
  rw [PairedDemux.stored_trackOf]
  exact PairedTrack.load_eq trackHolds

theorem receiveRecords_isMadeOf_repeated :
    Holds [1] [narrowPool] [] ∧ 0 < [1].length ∧
      ∃ final changed track groups last,
        (start Selection.everything Tolerance.standard 0).receiveRecords
          [Demux.briefRecord, Demux.briefRecord] [narrowPool] = (.ok final, changed) ∧
        (final.trackOf Demux.briefKey).load changed = (.ok track, changed) ∧
        groups.flatten ++ last =
          [⟨1330560000000000, 20, 50000, [1, 2]⟩, ⟨1330560000000000, 20, 50000, [1, 2]⟩] ∧
        track.IsMadeOf (Tolerance.standard.slack 50000) groups last := by
  have inside : 0 < [1].length := by decide
  obtain ⟨final, changed, isReceived, areMade⟩ :=
    receiveRecords_isMadeOf Selection.everything Tolerance.standard holds_narrowPool inside
      [Demux.briefRecord, Demux.briefRecord]
  obtain ⟨track, groups, last, isLoaded, _, areAll, made⟩ := areMade Demux.briefKey
  rw [Demux.decodedUnder_briefRecord] at areAll
  exact ⟨holds_narrowPool, inside, final, changed, track, groups, last, isReceived, isLoaded,
    areAll, made⟩

end StoredDemux

end Waveform
