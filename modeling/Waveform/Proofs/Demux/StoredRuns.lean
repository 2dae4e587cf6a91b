import Waveform.Proofs.Demux.Reassembly
import Waveform.Proofs.Demux.StoredSegments
import Waveform.Proofs.Demux.TrackIndex

/-!
# Runs in a pool simulate plain runs

Demultiplexing into a pool does with any blocks what demultiplexing without pools does, whatever
other traces the pools hold. No step fails and no record is set back, and at the end the pools hold
the segments beside the other traces, and nothing else.
-/

namespace Waveform

variable {blockSizes : List Nat} {pools : List Pool} {rest : List (StoredTrace × Trace)}

namespace Demux

theorem finishTrack_close (tolerance : Tolerance) (track : Track) :
    finishTrack tolerance track.close = finishTrack tolerance track := by
  simp [finishTrack, Track.close, Track.closedWorking]

/-- A result lists the segments of all finished tracks. -/
theorem flatMap_segments_splitOf (counters : Counters) (finished : List FinishedTrack) :
    ((splitOf counters finished).tracks.flatMap Prod.snd).Perm
      (finished.flatMap FinishedTrack.segments) := by
  have allListed (tracks : List FinishedTrack) :
      (listed tracks FinishedTrack.segments).flatMap Prod.snd =
        tracks.flatMap FinishedTrack.segments := by
    simp only [listed]
    induction tracks with
    | nil => rfl
    | cons track later ih =>
        rw [List.map_cons, List.filter_cons, List.flatMap_cons, ← ih]
        cases track.segments <;> simp
  simp only [splitOf]
  rw [allListed]
  exact (List.mergeSort_perm finished _).flatMap_right FinishedTrack.segments

end Demux

/-- A demultiplexer in a pool beside the plain one: each track is given together with the plain
one. -/
structure PairedDemux where
  selection : Selection
  tolerance : Tolerance
  pool : Nat
  tracks : List PairedTrack
  counters : Counters
  failure : Option StreamFailure

namespace PairedDemux

def stored (demux : PairedDemux) : StoredDemux :=
  ⟨demux.selection, demux.tolerance, demux.pool, demux.tracks.map PairedTrack.stored,
    (demux.tracks.map PairedTrack.key).zipIdx, demux.counters, demux.failure⟩

def plain (demux : PairedDemux) : Demux :=
  ⟨demux.selection, demux.tolerance, demux.tracks.map PairedTrack.plain, demux.counters,
    demux.failure⟩

/-- All traces of all tracks. -/
def entries (demux : PairedDemux) : List (StoredTrace × Trace) :=
  demux.tracks.flatMap PairedTrack.entries

/-- The track of a key, a new one if there is none yet. -/
def trackOf (demux : PairedDemux) (key : TrackKey) : PairedTrack :=
  (demux.tracks.find? fun track => track.key = key).getD ⟨key, none, [], [], []⟩

theorem isIndexed_stored (demux : PairedDemux) : demux.stored.IsIndexed := by
  simp only [StoredDemux.IsIndexed, stored, List.map_map]
  rfl

theorem stored_trackOf (demux : PairedDemux) (key : TrackKey) :
    demux.stored.trackOf key = (demux.trackOf key).stored := by
  rw [demux.isIndexed_stored.trackOf_eq]
  simp only [trackOf, stored, List.find?_map]
  change Option.getD (Option.map _ (demux.tracks.find? fun track => track.key = key)) _ = _
  cases demux.tracks.find? fun track => track.key = key <;> rfl

theorem plain_trackOf (demux : PairedDemux) (key : TrackKey) :
    demux.plain.trackOf key = (demux.trackOf key).plain := by
  simp only [Demux.trackOf, trackOf, plain, List.find?_map]
  change Option.getD (Option.map _ (demux.tracks.find? fun track => track.key = key)) _ = _
  cases demux.tracks.find? fun track => track.key = key <;> rfl

theorem key_trackOf (demux : PairedDemux) (key : TrackKey) : (demux.trackOf key).key = key := by
  have sameKey := demux.plain.key_trackOf key
  rw [plain_trackOf] at sameKey
  exact sameKey

/-- The traces of the track of a key stand beside those of the other tracks, which stay as they are
when the track is put. -/
theorem exists_others (tracks : List PairedTrack) (key : TrackKey) :
    ∃ others : List (StoredTrace × Trace),
      (tracks.flatMap PairedTrack.entries).Perm
        (((tracks.find? fun track => track.key = key).getD ⟨key, none, [], [], []⟩).entries ++
          others) ∧
      ∀ track : PairedTrack, track.key = key →
        ((putByKey PairedTrack.key track tracks).flatMap PairedTrack.entries).Perm
          (track.entries ++ others) := by
  induction tracks with
  | nil => exact ⟨[], List.Perm.nil, fun track _ => by simp [putByKey]⟩
  | cons first later ih =>
      by_cases found : first.key = key
      · refine ⟨later.flatMap PairedTrack.entries, ?_, fun track sameKey => ?_⟩
        · simp [found]
        · simp [putByKey, found, sameKey]
      · obtain ⟨others, isPerm, isPut⟩ := ih
        refine ⟨first.entries ++ others, ?_, fun track sameKey => ?_⟩
        · simp only [List.flatMap_cons, found, decide_false, List.find?_cons_of_neg, not_false_iff,
            Bool.false_eq_true]
          exact (isPerm.append_left _).trans (List.perm_append_comm_assoc _ _ _)
        · simp only [putByKey, sameKey, found, if_false, List.flatMap_cons]
          exact ((isPut track sameKey).append_left _).trans (List.perm_append_comm_assoc _ _ _)

variable {demux : PairedDemux}

/-- A record of a legal rate is routed as by the plain demultiplexer. -/
theorem route_spec (holds : Holds blockSizes pools (demux.entries ++ rest))
    (inside : demux.pool < blockSizes.length) {record : Record} {key : TrackKey}
    (legal : SampleRate.interval? record.header.sampleRate = some key.interval) :
    ∃ (next : PairedDemux) (changed : List Pool),
      demux.stored.route record key pools = (.ok (next.stored, none), changed) ∧
      demux.plain.route record key = next.plain ∧ next.pool = demux.pool ∧
      Holds blockSizes changed (next.entries ++ rest) := by
  obtain ⟨others, isPerm, isPut⟩ := exists_others demux.tracks key
  have trackHolds : Holds blockSizes pools ((demux.trackOf key).entries ++ (others ++ rest)) := by
    rw [← List.append_assoc]
    exact holds.perm (isPerm.append_right rest)
  have sameKey := demux.key_trackOf key
  obtain ⟨track, changed, isReceived, isPlain, trackKey, changedHolds⟩ :=
    PairedTrack.receive_spec trackHolds inside demux.tolerance (sameKey.symm ▸ legal)
  let joint := (demux.trackOf key).plain.jointOf demux.tolerance record
  let counters := demux.counters.addKept key.text (joint = .gap) (joint = .overlap)
    (!record.samples.isOk)
  let next : PairedDemux :=
    { demux with tracks := putByKey PairedTrack.key track demux.tracks, counters }
  refine ⟨next, changed, ?_, ?_, rfl, ?_⟩
  · obtain ⟨place, reserved, isReserved, isFound, isPut⟩ :=
      demux.isIndexed_stored.reserve_spec key
    have storedPut : putByKey StoredTrack.key track.stored demux.stored.tracks =
        (putByKey PairedTrack.key track demux.tracks).map PairedTrack.stored :=
      (map_putByKey (fun _ => rfl) track demux.tracks).symm
    have isNext := congrArg (fun put : StoredDemux => { put with counters })
      (isPut track.stored (trackKey.trans sameKey))
    simp only [StoredDemux.put] at isNext
    rw [storedPut, List.map_map] at isNext
    simp only [StoredDemux.route]
    rw [isReserved]
    dsimp only
    rw [isFound, stored_trackOf]
    refine (Process.bind_of_ok isReceived _).trans ?_
    exact congrArg (fun next : StoredDemux => (Except.ok (next, none), changed)) isNext
  · have plainPut : putByKey Track.key track.plain demux.plain.tracks =
        (putByKey PairedTrack.key track demux.tracks).map PairedTrack.plain :=
      (map_putByKey (fun _ => rfl) track demux.tracks).symm
    have isPlain : (demux.trackOf key).plain.receive demux.plain.tolerance record = track.plain :=
      isPlain
    simp only [Demux.route]
    rw [plain_trackOf, isPlain, plainPut]
    rfl
  · refine changedHolds.perm ?_
    rw [← List.append_assoc]
    exact ((isPut track (trackKey.trans sameKey)).append_right rest).symm

/-- The bytes of a record are processed as by the plain demultiplexer. -/
theorem receiveRecord_spec (holds : Holds blockSizes pools (demux.entries ++ rest))
    (inside : demux.pool < blockSizes.length) (bytes : List UInt8) :
    ∃ (next : PairedDemux) (changed : List Pool),
      demux.stored.receiveRecord bytes pools = (.ok (next.stored, none), changed) ∧
      demux.plain.receiveRecord bytes = next.plain ∧ next.pool = demux.pool ∧
      Holds blockSizes changed (next.entries ++ rest) := by
  have discards (verdict : Verdict) :
      ∃ (next : PairedDemux) (changed : List Pool),
        (pure ({ demux.stored with counters := demux.stored.counters.addDiscarded verdict }, none) :
          Stored (StoredDemux × Option Setback)) pools = (.ok (next.stored, none), changed) ∧
        { demux.plain with counters := demux.plain.counters.addDiscarded verdict } = next.plain ∧
        next.pool = demux.pool ∧ Holds blockSizes changed (next.entries ++ rest) :=
    ⟨{ demux with counters := demux.counters.addDiscarded verdict }, pools, rfl, rfl, rfl, holds⟩
  have samePlain : demux.plain.selection = demux.stored.selection := rfl
  simp only [StoredDemux.receiveRecord, Demux.receiveRecord]
  rw [samePlain]
  cases verdict : Verdict.ofBytes demux.stored.selection bytes with
  | kept record key => exact route_spec holds inside (Verdict.interval?_of_kept verdict)
  | corrupt | heartbeat | filtered | illegalRate => exact discards _

/-- A block is processed as by the plain demultiplexer. -/
theorem receive_spec (holds : Holds blockSizes pools (demux.entries ++ rest))
    (inside : demux.pool < blockSizes.length) (block : StreamBlock) :
    ∃ (next : PairedDemux) (changed : List Pool),
      demux.stored.receive block pools =
        (.ok (⟨block.continuation, none⟩, next.stored), changed) ∧
      (demux.plain.receive block).2 = next.plain ∧ next.pool = demux.pool ∧
      Holds blockSizes changed (next.entries ++ rest) := by
  let counters := demux.counters.addBytes block.bytes.length block.skipped
  let counted : PairedDemux := { demux with counters }
  obtain ⟨stream, skipped, content⟩ := block
  cases content with
  | record bytes =>
      have countedHolds : Holds blockSizes pools (counted.entries ++ rest) := holds
      obtain ⟨next, changed, isReceived, isPlain, samePool, nextHolds⟩ :=
        receiveRecord_spec countedHolds inside bytes
      exact ⟨next, changed, Process.bind_of_ok isReceived _, isPlain, samePool, nextHolds⟩
  | ended isLast => exact ⟨counted, pools, rfl, rfl, rfl, holds⟩
  | failed message =>
      let failed : PairedDemux :=
        { counted with failure := demux.failure.or (some ⟨stream, counters.bytes, message⟩) }
      exact ⟨failed, pools, rfl, rfl, rfl, holds⟩

/-- Any blocks are processed as by the plain demultiplexer. -/
theorem receiveAll_spec (blocks : List StreamBlock)
    (holds : Holds blockSizes pools (demux.entries ++ rest))
    (inside : demux.pool < blockSizes.length) :
    ∃ (final : PairedDemux) (changed : List Pool),
      demux.stored.receiveAll blocks pools =
        (.ok (blocks.map fun block => ⟨block.continuation, none⟩, final.stored), changed) ∧
      demux.plain.receiveAll blocks = final.plain ∧
      Holds blockSizes changed (final.entries ++ rest) := by
  induction blocks generalizing demux pools with
  | nil => exact ⟨demux, pools, rfl, rfl, holds⟩
  | cons block later ih =>
      obtain ⟨next, between, isNext, isPlainNext, samePool, nextHolds⟩ :=
        receive_spec holds inside block
      obtain ⟨final, changed, isFinal, isPlainFinal, finalHolds⟩ := ih nextHolds (samePool ▸ inside)
      refine ⟨final, changed, ?_, ?_, finalHolds⟩
      · simp only [StoredDemux.receiveAll]
        rw [Process.bind_of_ok isNext]
        exact Process.bind_of_ok isFinal _
      · rw [← isPlainFinal, ← isPlainNext]
        rfl

/-- Any records are processed as by the plain demultiplexer. -/
theorem receiveRecords_spec (buffers : List (List UInt8))
    (holds : Holds blockSizes pools (demux.entries ++ rest))
    (inside : demux.pool < blockSizes.length) :
    ∃ (final : PairedDemux) (changed : List Pool),
      demux.stored.receiveRecords buffers pools = (.ok final.stored, changed) ∧
      demux.plain.receiveRecords buffers = final.plain ∧
      Holds blockSizes changed (final.entries ++ rest) := by
  induction buffers generalizing demux pools with
  | nil => exact ⟨demux, pools, rfl, rfl, holds⟩
  | cons bytes later ih =>
      obtain ⟨next, between, isNext, isPlainNext, samePool, nextHolds⟩ :=
        receiveRecord_spec holds inside bytes
      obtain ⟨final, changed, isFinal, isPlainFinal, finalHolds⟩ := ih nextHolds (samePool ▸ inside)
      refine ⟨final, changed, ?_, ?_, finalHolds⟩
      · simp only [StoredDemux.receiveRecords] at isFinal ⊢
        rw [List.foldlM_cons, Process.bind_of_ok (Process.bind_of_ok isNext _)]
        exact isFinal
      · rw [← isPlainFinal, ← isPlainNext]
        rfl

/-- A run that starts in pools with other traces is that of the plain demultiplexer. -/
theorem receiveAll_start (holds : Holds blockSizes pools rest) {pool : Nat}
    (inside : pool < blockSizes.length) (selection : Selection) (tolerance : Tolerance)
    (blocks : List StreamBlock) :
    ∃ (final : PairedDemux) (changed : List Pool),
      (StoredDemux.start selection tolerance pool).receiveAll blocks pools =
        (.ok (blocks.map fun block => ⟨block.continuation, none⟩, final.stored), changed) ∧
      (Demux.start selection tolerance).receiveAll blocks = final.plain ∧
      final.plain.WellFormed ∧ Holds blockSizes changed (final.entries ++ rest) := by
  let begun : PairedDemux := ⟨selection, tolerance, pool, [], Counters.zero, none⟩
  have begunHolds : Holds blockSizes pools (begun.entries ++ rest) := holds
  obtain ⟨final, changed, isReceived, isPlain, finalHolds⟩ :=
    receiveAll_spec blocks begunHolds inside
  have wellFormed := (Demux.wellFormed_start selection tolerance).receiveAll blocks
  exact ⟨final, changed, isReceived, isPlain, isPlain ▸ wellFormed, finalHolds⟩

theorem receiveRecords_start (holds : Holds blockSizes pools rest) {pool : Nat}
    (inside : pool < blockSizes.length) (selection : Selection) (tolerance : Tolerance)
    (buffers : List (List UInt8)) :
    ∃ (final : PairedDemux) (changed : List Pool),
      (StoredDemux.start selection tolerance pool).receiveRecords buffers pools =
        (.ok final.stored, changed) ∧
      (Demux.start selection tolerance).receiveRecords buffers = final.plain ∧
      final.plain.WellFormed ∧ Holds blockSizes changed (final.entries ++ rest) := by
  let begun : PairedDemux := ⟨selection, tolerance, pool, [], Counters.zero, none⟩
  have begunHolds : Holds blockSizes pools (begun.entries ++ rest) := holds
  obtain ⟨final, changed, isReceived, isPlain, finalHolds⟩ :=
    receiveRecords_spec buffers begunHolds inside
  have wellFormed := (Demux.wellFormed_start selection tolerance).receiveRecords buffers
  exact ⟨final, changed, isReceived, isPlain, isPlain ▸ wellFormed, finalHolds⟩

/-! ## Finishing -/

/-- All tracks are closed as the plain ones are. -/
theorem closeAll_spec (tracks : List PairedTrack)
    (holds : Holds blockSizes pools (tracks.flatMap PairedTrack.entries ++ rest)) :
    ∃ (closed : List PairedTrack) (changed : List Pool),
      (tracks.map PairedTrack.stored).mapM StoredTrack.close pools =
        (.ok (closed.map PairedTrack.stored), changed) ∧
      tracks.map (fun track => track.plain.close) = closed.map PairedTrack.plain ∧
      (∀ track ∈ closed, track.working = none) ∧
      Holds blockSizes changed (closed.flatMap PairedTrack.entries ++ rest) := by
  induction tracks generalizing pools rest with
  | nil => exact ⟨[], pools, rfl, rfl, by simp, holds⟩
  | cons track later ih =>
      rw [List.flatMap_cons, List.append_assoc] at holds
      obtain ⟨first, between, isFirst, isPlainFirst, _, noWorking, firstHolds⟩ :=
        PairedTrack.close_spec holds
      obtain ⟨closed, changed, areClosed, arePlain, noneWorking, closedHolds⟩ :=
        ih (firstHolds.perm (List.perm_append_comm_assoc _ _ _))
      refine ⟨first :: closed, changed, ?_, ?_, ?_, ?_⟩
      · rw [List.map_cons, List.mapM_cons, Process.bind_of_ok isFirst, Process.bind_of_ok areClosed]
        rfl
      · rw [List.map_cons, List.map_cons, isPlainFirst, arePlain]
      · exact List.forall_mem_cons.mpr ⟨noWorking, noneWorking⟩
      · rw [List.flatMap_cons, List.append_assoc]
        exact closedHolds.perm (List.perm_append_comm_assoc _ _ _)

/-- A trace is loaded as the plain one is. -/
theorem load_eq {trace : StoredTrace × Trace} (holds : Holds blockSizes pools (trace :: rest)) :
    trace.1.load pools = (.ok trace.2, pools) := by
  have describes : trace.1.Describes trace.2 := holds.describes_head
  rw [StoredTrace.load, Process.bind_of_ok (StoredTrace.samples_eq holds), describes.start,
    describes.rate, describes.interval]
  rfl

/-- Traces are loaded as the plain ones are. -/
theorem loadAll_eq (traces : List (StoredTrace × Trace))
    (holds : Holds blockSizes pools (traces ++ rest)) :
    (traces.map Prod.fst).mapM StoredTrace.load pools = (.ok (traces.map Prod.snd), pools) := by
  induction traces generalizing rest with
  | nil => rfl
  | cons trace later ih =>
      have areLoaded := ih (holds.perm List.perm_middle.symm)
      rw [List.map_cons, List.mapM_cons, Process.bind_of_ok (load_eq holds),
        Process.bind_of_ok areLoaded]
      rfl

/-- A closed track is formed into segments as the plain one is. -/
theorem finishTrack_spec {track : PairedTrack}
    (holds : Holds blockSizes pools (track.entries ++ rest)) (noWorking : track.working = none)
    (wellFormed : track.plain.WellFormed) (tolerance : Tolerance) :
    ∃ (finished : Demux.FinishedTrack) (segments : List (StoredTrace × Trace))
        (changed : List Pool),
      StoredDemux.finishTrack tolerance track.stored pools =
        (.ok (finished, segments.map Prod.fst), changed) ∧
      Demux.finishTrack tolerance track.plain = .ok finished ∧
      finished.segments = segments.map Prod.snd ∧ Holds blockSizes changed (segments ++ rest) := by
  rw [PairedTrack.entries, noWorking] at holds
  have taken : ∀ trace ∈ track.closed, trace.2.TakenAt track.key.interval :=
    fun trace member => wellFormed.closed trace.2 (List.mem_map_of_mem member)
  obtain ⟨segments, corrections, changed, areFormed, arePlain, formedHolds⟩ :=
    segmentStoredTraces_spec tolerance track.closed holds wellFormed.positive taken
  have closedPlain : track.plain.close.closed = track.closed.map Prod.snd := by
    simp [Track.close, Track.closedWorking, PairedTrack.plain, noWorking]
  refine ⟨⟨track.key, segments.map Prod.snd, corrections, track.qualities, track.calibrations⟩,
    segments, changed, ?_, ?_, rfl, formedHolds⟩
  · refine (Process.bind_of_ok areFormed _).trans ?_
    exact Process.bind_of_ok (loadAll_eq segments formedHolds) _
  · simp only [Demux.finishTrack]
    rw [closedPlain, arePlain]
    rfl

/-- All closed tracks are formed into segments as the plain ones are. -/
theorem finishAll_spec (tracks : List PairedTrack)
    (holds : Holds blockSizes pools (tracks.flatMap PairedTrack.entries ++ rest))
    (noneWorking : ∀ track ∈ tracks, track.working = none)
    (wellFormed : ∀ track ∈ tracks, track.plain.WellFormed) (tolerance : Tolerance) :
    ∃ (finished : List (Demux.FinishedTrack × List StoredTrace))
        (segments : List (StoredTrace × Trace)) (changed : List Pool),
      (tracks.map PairedTrack.stored).mapM (StoredDemux.finishTrack tolerance) pools =
        (.ok finished, changed) ∧
      (tracks.map PairedTrack.plain).mapM (Demux.finishTrack tolerance) =
        .ok (finished.map Prod.fst) ∧
      finished.flatMap Prod.snd = segments.map Prod.fst ∧
      (finished.map Prod.fst).flatMap Demux.FinishedTrack.segments = segments.map Prod.snd ∧
      Holds blockSizes changed (segments ++ rest) := by
  induction tracks generalizing pools rest with
  | nil => exact ⟨[], [], pools, rfl, rfl, rfl, rfl, holds⟩
  | cons track later ih =>
      rw [List.flatMap_cons, List.append_assoc] at holds
      obtain ⟨noWorking, laterWorking⟩ := List.forall_mem_cons.mp noneWorking
      obtain ⟨trackFormed, laterFormed⟩ := List.forall_mem_cons.mp wellFormed
      obtain ⟨first, firstSegments, between, isFirst, isPlainFirst, sameFirst, firstHolds⟩ :=
        finishTrack_spec holds noWorking trackFormed tolerance
      obtain ⟨finished, segments, changed, areFinished, arePlain, sameStored, samePlain,
        finishedHolds⟩ := ih (firstHolds.perm (List.perm_append_comm_assoc _ _ _)) laterWorking
          laterFormed
      refine ⟨(first, firstSegments.map Prod.fst) :: finished, firstSegments ++ segments, changed,
        ?_, ?_, ?_, ?_, ?_⟩
      · rw [List.map_cons, List.mapM_cons, Process.bind_of_ok isFirst,
          Process.bind_of_ok areFinished]
        rfl
      · rw [List.map_cons, List.mapM_cons, isPlainFirst, arePlain]
        rfl
      · rw [List.flatMap_cons, sameStored, List.map_append]
      · rw [List.map_cons, List.flatMap_cons, samePlain, sameFirst, List.map_append]
      · rw [List.append_assoc]
        exact finishedHolds.perm (List.perm_append_comm_assoc _ _ _)

/-- A run is finished as the plain one is. What the pools hold afterwards of it are the segments. -/
theorem finish_spec (holds : Holds blockSizes pools (demux.entries ++ rest))
    (wellFormed : demux.plain.WellFormed) :
    ∃ (split : Split) (segments : List (StoredTrace × Trace)) (changed : List Pool),
      demux.stored.finish pools = (.ok (split, segments.map Prod.fst), changed) ∧
      demux.plain.finish = .ok split ∧
      (split.tracks.flatMap Prod.snd).Perm (segments.map Prod.snd) ∧
      Holds blockSizes changed (segments ++ rest) := by
  obtain ⟨closed, between, areClosed, arePlainClosed, noneWorking, closedHolds⟩ :=
    closeAll_spec demux.tracks holds
  have closedFormed : ∀ track ∈ closed, track.plain.WellFormed := by
    intro track member
    have isClosed : track.plain ∈ demux.tracks.map fun track => track.plain.close := by
      rw [arePlainClosed]
      exact List.mem_map_of_mem member
    obtain ⟨former, isFormer, sameTrack⟩ := List.mem_map.mp isClosed
    rw [← sameTrack]
    exact (wellFormed.tracks former.plain (List.mem_map_of_mem isFormer)).close
  obtain ⟨finished, segments, changed, areFinished, arePlain, sameStored, samePlain,
    finishedHolds⟩ := finishAll_spec closed closedHolds noneWorking closedFormed demux.tolerance
  refine ⟨Demux.splitOf demux.counters (finished.map Prod.fst), segments, changed, ?_, ?_, ?_,
    finishedHolds⟩
  · refine (Process.bind_of_ok areClosed _).trans ?_
    refine (Process.bind_of_ok areFinished _).trans ?_
    rw [sameStored]
    rfl
  · have plainFinished : demux.plain.tracks.mapM (Demux.finishTrack demux.plain.tolerance) =
        .ok (finished.map Prod.fst) := by
      rw [← arePlain, ← arePlainClosed]
      simp [plain, List.mapM_map, Function.comp_def, Demux.finishTrack_close]
    simp only [Demux.finish]
    rw [plainFinished]
    rfl
  · rw [← samePlain]
    exact Demux.flatMap_segments_splitOf _ _

end PairedDemux

namespace StoredDemux

/-- After any blocks the index leads from every key to the place of its track, and from no other key
to any place. -/
theorem placeOf?_receiveAll (holds : Holds blockSizes pools rest) {pool : Nat}
    (inside : pool < blockSizes.length) (selection : Selection) (tolerance : Tolerance)
    (blocks : List StreamBlock) :
    ∃ processed final changed,
      (start selection tolerance pool).receiveAll blocks pools =
        (.ok (processed, final), changed) ∧
      ∀ key place, final.placeOf? key = some place ↔
        (final.tracks[place]?).map StoredTrack.key = some key := by
  obtain ⟨final, changed, isReceived, _, wellFormed, _⟩ :=
    PairedDemux.receiveAll_start holds inside selection tolerance blocks
  have distinct : (final.stored.tracks.map StoredTrack.key).Nodup := by
    have plainDistinct := wellFormed.keys
    rw [PairedDemux.plain, List.map_map] at plainDistinct
    rw [PairedDemux.stored, List.map_map]
    exact plainDistinct
  exact ⟨_, final.stored, changed, isReceived, fun key place =>
    final.isIndexed_stored.placeOf?_eq_some_iff distinct⟩

/-- A pool of blocks of one sample, none of which is lent. -/
def narrowPool : Pool := ⟨1, by decide, #[[7], [9]], #[false, false], rfl, [1, 0]⟩

theorem holds_narrowPool : Holds [1] [narrowPool] [] := by
  have idle : ∀ pool ∈ [narrowPool], pool.Lends [] := by
    intro pool member
    obtain rfl := List.mem_singleton.mp member
    exact Pool.lends_of_free (by decide) (by decide) (by decide)
  exact holds_nil idle

end StoredDemux

end Waveform
