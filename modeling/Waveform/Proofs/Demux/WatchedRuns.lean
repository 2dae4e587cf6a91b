import Waveform.Proofs.Demux.Draining
import Waveform.Proofs.Demux.Gathering
import Waveform.Proofs.Payload.Counts
import Waveform.Proofs.Record.Addresses
import Waveform.Proofs.Trace.Distances

/-!
# Processing in sixty-four bits

Processing a block is watched: records are read at their addresses, and every sum, difference and
product has to fit in 64 bits. It does for blocks that can be counted and intervals to which the
slack can be added. What carries this through a run is that records start in years far from both
ends of what can be told, so that a trace which a record continues reaches no further than the slack
behind it. Only a slack of more than seventy thousand years lets a trace get any longer than that;
the records of such a run must then not span as much.
-/

namespace Waveform

open Watched

variable {ε : Type}

/-! ## Watched processing -/

/-- How a start stands to a working trace. -/
def Joint.watch (tolerance : Tolerance) (interval : Int) (working : Option Trace) (start : Int) :
    Watched ε Joint :=
  match working with
  | none => return .opening
  | some trace =>
      if trace.samples = [] then return .restart
      else do
        let stop ← trace.extent.watchStop
        let distance ← signed (start - stop)
        let latest ← signed (interval + tolerance.slack interval)
        if latest < distance then do
          let _ ← signed (distance - interval)
          return .gap
        else do
          let earliest ← signed (interval - tolerance.slack interval)
          if distance < earliest then do
            let _ ← signed (interval - distance)
            return .overlap
          else return .continues

/-- The track with the samples that a record was decoded to, its clock quality and its
calibrations. -/
def Track.watchReceive (track : Track) (joint : Joint) (record : Record)
    (samples : Except RecordError (List Int32)) : Watched ε Track := do
  let prepared := track.prepare joint record
  let longer ←
    match samples with
    | .error _ => pure prepared.2
    | .ok samples => do
        let _ ← unsigned (prepared.2.samples.length + samples.length)
        pure (prepared.2.append samples)
  return { prepared.1 with
    working := some longer
    qualities := track.qualities ++ record.clockQuality?.toList
    calibrations := track.calibrations ++ record.calibrations }

namespace Demux

/-- Route a record that is kept to its track. -/
def watchRoute (demux : Demux) (record : Record) (key : TrackKey) : Watched ε Demux := do
  let track := demux.trackOf key
  let joint ← Joint.watch demux.tolerance track.key.interval track.working record.start
  let samples ← record.watchSamples.attempt
  let received ← track.watchReceive joint record samples
  let counters ← (demux.counters.addKept key.text (joint = .gap) (joint = .overlap)
    (!samples.isOk)).watchRecord
  return { demux with tracks := putByKey Track.key received demux.tracks, counters }

/-- Process the bytes of a record. -/
def watchRecord (demux : Demux) (bytes : List UInt8) : Watched ε Demux := do
  match ← Verdict.watch demux.selection bytes with
  | .kept record key => demux.watchRoute record key
  | discarded => do
      let counters ← (demux.counters.addDiscarded discarded).watchRecord
      return { demux with counters }

/-- Process one block. -/
def watch (demux : Demux) (block : StreamBlock) : Watched ε Demux := do
  let counters ← demux.counters.watchBytes block.bytes.length block.skipped
  let counted := { demux with counters }
  match block.content with
  | .record bytes => counted.watchRecord bytes
  | .ended _ => return counted
  | .failed message => return counted.fail block.stream message

end Demux

/-! ## What is in range -/

/-- The key under which a record is kept. -/
def Verdict.key? : Verdict → Option TrackKey
  | .kept _ key => some key
  | _ => none

/-- How much time the samples span that a record announces if it is kept. -/
def Verdict.duration : Verdict → Nat
  | .kept record key => key.interval.toNat * record.header.sampleCount
  | _ => 0

namespace StreamBlock

/-- What becomes of the record of a block. -/
def verdict? (selection : Selection) (block : StreamBlock) : Option Verdict :=
  block.record?.map (Verdict.ofBytes selection)

/-- What the records of some blocks cost in all. -/
def costOf (selection : Selection) (cost : Verdict → Nat) (blocks : List StreamBlock) : Nat :=
  totalOf (fun block => ((block.verdict? selection).map cost).getD 0) blocks

/-- The keys under which records of some blocks are kept. -/
def keysOf (selection : Selection) (blocks : List StreamBlock) : List TrackKey :=
  blocks.filterMap fun block => (block.verdict? selection).bind Verdict.key?

/-- Whether 64 bits suffice for a run over some blocks: for the bytes and the blocks that are
counted, and for any interval with its slack. A slack of more than seventy thousand years may
besides let a trace get as long as that, unless the samples of all records together span less. -/
structure InRange (selection : Selection) (tolerance : Tolerance) (blocks : List StreamBlock) :
    Prop where
  bytes : bytesIn blocks < UInt64.size
  count : blocks.length < UInt64.size
  fits : ∀ key ∈ keysOf selection blocks, key.interval + tolerance.slack key.interval < 2 ^ 63
  reach : (∀ key ∈ keysOf selection blocks, tolerance.slack key.interval ≤ 2 ^ 61) ∨
    costOf selection Verdict.duration blocks ≤ 2 ^ 61

variable {selection : Selection} {tolerance : Tolerance} {blocks : List StreamBlock}

theorem InRange.dropLast {block : StreamBlock} (inRange : InRange selection tolerance
    (blocks ++ [block])) : InRange selection tolerance blocks := by
  have earlier (key : TrackKey) (member : key ∈ keysOf selection blocks) :
      key ∈ keysOf selection (blocks ++ [block]) := by
    rw [keysOf, List.filterMap_append]
    exact List.mem_append_left _ member
  constructor
  case bytes =>
    have total := inRange.bytes
    rw [bytesIn, totalOf_append] at total
    exact Nat.lt_of_le_of_lt (Nat.le_add_right _ _) total
  case count =>
    have total := inRange.count
    rw [List.length_append] at total
    exact Nat.lt_of_le_of_lt (Nat.le_add_right _ _) total
  case fits => exact fun key member => inRange.fits key (earlier key member)
  case reach =>
    refine inRange.reach.imp (fun small key member => small key (earlier key member)) ?_
    intro short
    rw [costOf, totalOf_append] at short
    exact (Nat.le_add_right _ _).trans short

end StreamBlock

/-! ## Tracks -/

namespace Track

/-- The traces of a track. -/
def traces (track : Track) : List Trace := track.closed ++ track.working.toList

/-- How many samples a track has gathered. -/
def sampleCount (track : Track) : Nat :=
  totalOf (fun trace : Trace => trace.samples.length) track.traces

/-- How much time the samples span that a track has gathered. -/
def duration (track : Track) : Nat := track.key.interval.toNat * track.sampleCount

/-- Whether the traces of a track are such as records give. -/
structure InReach (track : Track) (tolerance : Tolerance) : Prop where
  legal : ∃ entry ∈ SampleRate.table, entry.2 = track.key.interval
  fits : track.key.interval + tolerance.slack track.key.interval < 2 ^ 63
  interval_eq : ∀ trace ∈ track.traces, trace.interval = track.key.interval
  starts : ∀ trace ∈ track.traces, -2 ^ 52 ≤ trace.start ∧ trace.start ≤ 2 ^ 52
  nexts : ∀ trace ∈ track.traces, trace.next ≤ 2 ^ 62

variable {track : Track} {tolerance : Tolerance} {record : Record}

theorem inReach_ofKey {key : TrackKey} (legal : ∃ entry ∈ SampleRate.table, entry.2 = key.interval)
    (fits : key.interval + tolerance.slack key.interval < 2 ^ 63) :
    (ofKey key).InReach tolerance where
  legal := legal
  fits := fits
  interval_eq := by simp [ofKey, traces]
  starts := by simp [ofKey, traces]
  nexts := by simp [ofKey, traces]

theorem InReach.interval_bounds (inReach : track.InReach tolerance) :
    0 < track.key.interval ∧ track.key.interval ≤ 2 ^ 30 := by
  obtain ⟨⟨legal, interval⟩, member, isInterval⟩ := inReach.legal
  rw [← isInterval]
  simp only [SampleRate.table, List.mem_cons, Prod.mk.injEq, List.not_mem_nil, or_false] at member
  omega

theorem InReach.extent (inReach : track.InReach tolerance) {trace : Trace}
    (member : trace ∈ track.traces) : trace.extent.InReach := by
  obtain ⟨positive, isShort⟩ := inReach.interval_bounds
  have sameInterval := inReach.interval_eq trace member
  have next := inReach.nexts trace member
  constructor
  case positive => simpa [sameInterval] using positive
  case short => simpa [sameInterval] using isShort
  case notEarly => exact (inReach.starts trace member).1
  case notLate =>
    have stops : trace.stop ≤ trace.next := Trace.stop_le_next (sameInterval ▸ positive.le)
    change trace.stop ≤ 2 ^ 62 + 2 ^ 61
    omega

/-- The traces of a track after a record are those closed before and the one that it extends. -/
theorem mem_traces_receive {trace : Trace}
    (member : trace ∈ (track.receive tolerance record).traces) :
    trace ∈ track.traces ∨
      trace = (track.prepare (track.jointOf tolerance record) record).2.extendedBy record := by
  rcases List.mem_append.mp member with inClosed | isWorking
  · refine .inl ?_
    change trace ∈ (track.prepare (track.jointOf tolerance record) record).1.closed at inClosed
    rcases prepare_cases track tolerance record with
      ⟨_, _, _, _, prepared⟩ | ⟨ready, _, prepared, closed, _⟩
    · rw [prepared] at inClosed
      exact List.mem_append_left _ inClosed
    · rw [prepared, closed] at inClosed
      rcases mem_closed_close.mp inClosed with wasClosed | ⟨wasWorking, _⟩
      · exact List.mem_append_left _ wasClosed
      · exact List.mem_append_right _ (by simp [wasWorking])
  · exact .inr (List.mem_singleton.mp isWorking)

/-- A record is put where it starts, give or take the slack. -/
theorem next_prepare_le (inReach : track.InReach tolerance) (record : Record) :
    (track.prepare (track.jointOf tolerance record) record).2.next ≤
      record.start + tolerance.slack track.key.interval := by
  have slack_nonneg := tolerance.slack_nonneg inReach.interval_bounds.1.le
  rcases prepare_cases track tolerance record with
    ⟨trace, isWorking, nonempty, near, prepared⟩ | ⟨_, trace, prepared, _, isEmpty, starts, _⟩
  · have sameInterval := inReach.interval_eq trace (by simp [traces, isWorking])
    rw [prepared, Trace.next_of_nonempty nonempty, sameInterval]
    have := (abs_le.mp near).1
    omega
  · have isNext : trace.next = trace.start := by simp [Trace.next, Extent.timeAt, isEmpty]
    rw [prepared, isNext, starts]
    exact le_add_of_nonneg_right slack_nonneg

/-- A record adds no more samples than it announces. -/
theorem length_extendedBy_le (trace : Trace) (few : record.header.sampleCount < UInt16.size) :
    (trace.extendedBy record).samples.length ≤
      trace.samples.length + record.header.sampleCount := by
  rw [Trace.extendedBy]
  cases isDecoded : record.samples with
  | error error => exact Nat.le_add_right _ _
  | ok samples =>
      rw [Trace.samples_append, List.length_append, Record.length_samples few isDecoded]

theorem interval_mul_sampleCount_le (inReach : track.InReach tolerance)
    (few : record.header.sampleCount < UInt16.size) :
    track.key.interval * record.header.sampleCount ≤ 2 ^ 46 := by
  obtain ⟨positive, short⟩ := inReach.interval_bounds
  rw [UInt16.size] at few
  calc track.key.interval * record.header.sampleCount
      ≤ 2 ^ 30 * record.header.sampleCount :=
        mul_le_mul_of_nonneg_right short (Int.natCast_nonneg _)
    _ ≤ 2 ^ 46 := by omega

/-- A track stays in reach if the slack is small, or else if its samples do not span too much. -/
theorem InReach.receive (inReach : track.InReach tolerance)
    (starts : -2 ^ 52 ≤ record.start ∧ record.start ≤ 2 ^ 52)
    (few : record.header.sampleCount < UInt16.size)
    (reach : tolerance.slack track.key.interval ≤ 2 ^ 61 ∨
      (track.receive tolerance record).duration ≤ 2 ^ 61) :
    (track.receive tolerance record).InReach tolerance := by
  have prepared := next_prepare_le inReach record
  have startsWithin : -2 ^ 52 ≤ (track.prepare (track.jointOf tolerance record) record).2.start ∧
      (track.prepare (track.jointOf tolerance record) record).2.start ≤ 2 ^ 52 := by
    rcases prepare_cases track tolerance record with
      ⟨trace, isWorking, _, _, isPrepared⟩ | ⟨_, trace, isPrepared, _, _, isStart, _⟩
    · rw [isPrepared]
      exact inReach.starts trace (by simp [traces, isWorking])
    · rw [isPrepared, isStart]
      exact starts
  have sameInterval : (track.prepare (track.jointOf tolerance record) record).2.interval =
      track.key.interval :=
    interval_prepare (fun trace isWorking =>
      inReach.interval_eq trace (by simp [traces, isWorking])) _ record
  obtain ⟨positive, _⟩ := inReach.interval_bounds
  constructor
  case legal =>
    rw [key_receive]
    exact inReach.legal
  case fits =>
    rw [key_receive]
    exact inReach.fits
  case interval_eq =>
    intro trace member
    rw [key_receive]
    rcases mem_traces_receive member with wasThere | rfl
    · exact inReach.interval_eq trace wasThere
    · rw [interval_extendedBy, sameInterval]
  case starts =>
    intro trace member
    rcases mem_traces_receive member with wasThere | rfl
    · exact inReach.starts trace wasThere
    · rw [start_extendedBy]
      exact startsWithin
  case nexts =>
    intro trace member
    rcases mem_traces_receive member with wasThere | rfl
    · exact inReach.nexts trace wasThere
    · generalize (track.prepare (track.jointOf tolerance record) record).2 = trace at *
      have nextTime : (trace.extendedBy record).next =
          trace.start + track.key.interval * (trace.extendedBy record).samples.length := by
        rw [← sameInterval, ← interval_extendedBy trace record, ← start_extendedBy trace record]
        rfl
      have isNext : trace.next = trace.start + track.key.interval * trace.samples.length := by
        rw [← sameInterval]
        rfl
      rcases reach with small | short
      · have longer := mul_le_mul_of_nonneg_left
          (Int.ofNat_le.mpr (length_extendedBy_le trace few)) positive.le
        have added := interval_mul_sampleCount_le inReach few
        rw [Nat.cast_add, mul_add] at longer
        omega
      · have fewer : (trace.extendedBy record).samples.length ≤
            (track.receive tolerance record).sampleCount :=
          le_totalOf_of_mem (fun trace : Trace => trace.samples.length) member
        have spans := (Nat.mul_le_mul_left track.key.interval.toNat fewer).trans
          (by simpa [duration] using short)
        have isNat : (track.key.interval.toNat : Int) = track.key.interval :=
          Int.toNat_of_nonneg positive.le
        have bound : track.key.interval * ((trace.extendedBy record).samples.length : Int) ≤
            2 ^ 61 := by
          rw [← isNat]
          exact_mod_cast spans
        omega

/-! ## What records add to a track -/

theorem InReach.gives_watchJoint (inReach : track.InReach tolerance)
    (starts : -2 ^ 52 ≤ record.start ∧ record.start ≤ 2 ^ 52) :
    Gives (Joint.watch tolerance track.key.interval track.working record.start : Watched ε _)
      (.ok (track.jointOf tolerance record)) := by
  unfold Joint.watch jointOf Joint.ofStart
  cases isWorking : track.working with
  | none => exact gives_pure _
  | some trace =>
      dsimp only
      split
      next => exact gives_pure _
      next =>
        have isTrace : trace ∈ track.traces := by simp [traces, isWorking]
        have extent := inReach.extent isTrace
        have order := extent.start_le_stop
        have notEarly := extent.notEarly
        have notLate := extent.notLate
        obtain ⟨positive, _⟩ := inReach.interval_bounds
        have slack_nonneg := tolerance.slack_nonneg positive.le
        have fits := inReach.fits
        refine extent.gives_watchStop.bind ?_
        refine (gives_signed ⟨by omega, by omega⟩).bind ?_
        refine (gives_signed ⟨by omega, by omega⟩).bind ?_
        change Gives _ (.ok (if _ < record.start - trace.extent.stop then _ else _))
        split
        next => exact (gives_signed ⟨by omega, by omega⟩).bind (gives_pure _)
        next =>
          refine (gives_signed ⟨by omega, by omega⟩).bind ?_
          change Gives _ (.ok (if record.start - trace.extent.stop < _ then _ else _))
          split
          next => exact (gives_signed ⟨by omega, by omega⟩).bind (gives_pure _)
          next => exact gives_pure _

theorem InReach.gives_watchReceive
    (inReach : (track.receive tolerance record).InReach tolerance) :
    Gives (track.watchReceive (track.jointOf tolerance record) record record.samples :
      Watched ε _) (.ok (track.receive tolerance record)) := by
  have isTrace : (track.prepare (track.jointOf tolerance record) record).2.extendedBy record ∈
      (track.receive tolerance record).traces := by simp [traces, Track.receive]
  have lengthFits := (inReach.extent isTrace).length_lt
  unfold watchReceive Track.receive
  simp only [Trace.extendedBy] at lengthFits ⊢
  cases isDecoded : record.samples with
  | error error => exact gives_pure _
  | ok samples =>
      rw [isDecoded] at lengthFits
      have fits : (track.prepare (track.jointOf tolerance record) record).2.samples.length +
          samples.length < UInt64.size := by simpa using lengthFits
      exact (gives_unsigned fits).bind (gives_pure _)

end Track

/-! ## Runs -/

namespace Demux

variable {demux : Demux} {selection : Selection} {tolerance : Tolerance}

section

variable {measure : Track → Nat} {cost : Verdict → Nat}

end

/-- Whether all tracks are such as records give. -/
def InReach (demux : Demux) : Prop :=
  ∀ track ∈ demux.tracks, track.InReach demux.tolerance

theorem InReach.trackOf (inReach : demux.InReach) {bytes : List UInt8} {record : Record}
    {key : TrackKey} (isKept : Verdict.ofBytes selection bytes = .kept record key)
    (fits : key.interval + demux.tolerance.slack key.interval < 2 ^ 63) :
    (demux.trackOf key).InReach demux.tolerance := by
  rcases demux.trackOf_mem_or key with member | isNew
  · exact inReach _ member
  · obtain ⟨legal, member⟩ :=
      SampleRate.exists_mem_table_of_interval? (Verdict.interval?_of_kept isKept)
    rw [isNew]
    exact Track.inReach_ofKey ⟨_, member, rfl⟩ fits

/-- Whether 64 bits suffice for the track of a record. -/
structure Admits (demux : Demux) (bytes : List UInt8) : Prop where
  fits : ∀ key, (Verdict.ofBytes demux.selection bytes).key? = some key →
    key.interval + demux.tolerance.slack key.interval < 2 ^ 63
  reach : (∀ key, (Verdict.ofBytes demux.selection bytes).key? = some key →
      demux.tolerance.slack key.interval ≤ 2 ^ 61) ∨
    totalOf Track.duration (demux.receiveRecord bytes).tracks ≤ 2 ^ 61

theorem InReach.receiveKept (inReach : demux.InReach) {bytes : List UInt8} {record : Record}
    {key : TrackKey} (admits : demux.Admits bytes)
    (isKept : Verdict.ofBytes demux.selection bytes = .kept record key) :
    ((demux.trackOf key).receive demux.tolerance record).InReach demux.tolerance := by
  obtain ⟨isDecoded, _⟩ := Verdict.decode_of_kept isKept
  obtain ⟨fits, reach⟩ := admits
  rw [isKept] at fits reach
  apply (inReach.trackOf isKept (fits key rfl)).receive (Record.start_bounds isDecoded)
    (Record.sampleCount_lt isDecoded)
  rw [key_trackOf]
  refine reach.imp (fun small => small key rfl) fun short => ?_
  refine le_trans (le_totalOf_of_mem Track.duration ?_) short
  rw [tracks_receiveRecord, isKept]
  exact mem_putByKey_self _ _

theorem InReach.receiveRecord (inReach : demux.InReach) {bytes : List UInt8}
    (admits : demux.Admits bytes) : (demux.receiveRecord bytes).InReach := by
  rw [InReach, tracks_receiveRecord, tolerance_receiveRecord]
  cases isVerdict : Verdict.ofBytes demux.selection bytes with
  | corrupt | heartbeat | filtered | illegalRate => exact inReach
  | kept record key =>
      intro track member
      rcases mem_putByKey member with rfl | wasThere
      · exact inReach.receiveKept admits isVerdict
      · exact inReach track wasThere

theorem InReach.gives_watchRecord (inReach : demux.InReach) {bytes : List UInt8}
    (admits : demux.Admits bytes) {limit : Nat}
    (atMost : (demux.receiveRecord bytes).counters.AtMost limit) (few : limit < UInt64.size) :
    Gives (demux.watchRecord bytes : Watched ε _) (.ok (demux.receiveRecord bytes)) := by
  refine (Verdict.gives_watch demux.selection bytes).bind ?_
  have counts := atMost.gives_watchRecord few (ε := ε)
  cases isVerdict : Verdict.ofBytes demux.selection bytes with
  | corrupt | heartbeat | filtered | illegalRate =>
      simp only [Demux.receiveRecord, isVerdict] at counts ⊢
      exact counts.bind (gives_pure _)
  | kept record key =>
      obtain ⟨isDecoded, _⟩ := Verdict.decode_of_kept isVerdict
      have fits := admits.fits
      rw [isVerdict] at fits
      have before := inReach.trackOf isVerdict (fits key rfl)
      have joint := before.gives_watchJoint (ε := ε) (Record.start_bounds isDecoded)
      have received := (inReach.receiveKept admits isVerdict).gives_watchReceive (ε := ε)
      simp only [Demux.receiveRecord, isVerdict, Demux.route] at counts ⊢
      refine joint.bind ?_
      refine (Record.gives_watchSamples record).attempt.bind ?_
      refine received.bind ?_
      exact counts.bind (gives_pure _)

/-- One block is processed as if nobody watched. -/
theorem InReach.gives_watch (inReach : demux.InReach) {block : StreamBlock}
    (admits : ∀ bytes, block.content = .record bytes → (demux.countBytes block).Admits bytes)
    (bytes : demux.counters.bytes + block.bytes.length + block.skipped < UInt64.size)
    (fewer : demux.counters.skippedBytes ≤ demux.counters.bytes) {limit : Nat}
    (atMost : (demux.receive block).2.counters.AtMost limit) (few : limit < UInt64.size) :
    (demux.receive block).2.InReach ∧
      Gives (demux.watch block : Watched ε _) (.ok (demux.receive block).2) := by
  have counted : (demux.countBytes block).InReach := inReach
  have counts := Counters.gives_watchBytes (ε := ε) bytes fewer
  simp only [Demux.receive] at atMost ⊢
  rw [watch]
  cases isContent : block.content with
  | record record =>
      simp only [isContent] at atMost ⊢
      have isReceived := counted.gives_watchRecord (ε := ε) (admits record isContent) atMost few
      exact ⟨counted.receiveRecord (admits record isContent), counts.bind isReceived⟩
  | ended isLast => exact ⟨counted, counts.bind (gives_pure _)⟩
  | failed message => exact ⟨counted, counts.bind (gives_pure _)⟩

end Demux

end Waveform
