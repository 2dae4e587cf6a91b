import Waveform.Proofs.Demux.Tracks

/-!
# Gathering aligned records

When the records of a track start whole intervals apart, a record either continues the working trace
exactly or starts another trace at its own start. What the traces of the track give is then what the
records that can be decoded give, in whichever order these came.
-/

namespace Waveform

/-- The samples of a record as a trace of an interval, if they can be decoded. -/
def Record.trace? (record : Record) (interval : Int) : Option Trace :=
  match record.samples with
  | .ok samples => some ⟨record.start, record.header.sampleRate, interval, samples⟩
  | .error _ => none

/-- The traces of those records that can be decoded. -/
def decodedTraces (interval : Int) (records : List Record) : List Trace :=
  records.filterMap fun record => record.trace? interval

theorem decodedTraces_append (interval : Int) (first second : List Record) :
    decodedTraces interval (first ++ second) =
      decodedTraces interval first ++ decodedTraces interval second :=
  List.filterMap_append

theorem decodedTraces_cons (interval : Int) (record : Record) (later : List Record) :
    decodedTraces interval (record :: later) =
      (record.trace? interval).toList ++ decodedTraces interval later := by
  rw [decodedTraces, List.filterMap_cons]
  cases record.trace? interval <;> rfl

theorem start_of_trace? {record : Record} {interval : Int} {trace : Trace}
    (isTrace : record.trace? interval = some trace) : trace.start = record.start := by
  simp only [Record.trace?] at isTrace
  split at isTrace
  · cases isTrace
    rfl
  · cases isTrace

theorem givenBy_decodedTraces_singleton {interval : Int} {record : Record} {time : Int}
    {value : Int32} :
    GivenBy (decodedTraces interval [record]) time value ↔
      ∃ trace, record.trace? interval = some trace ∧ trace.Gives time value := by
  simp only [GivenBy, decodedTraces]
  simp

namespace Track

section

variable {track : Track} {tolerance : Tolerance} {record : Record} {time : Int} {value : Int32}

/-- Closed or not, the working trace counts among what the track gives. -/
theorem givenBy_close :
    GivenBy track.close.closed time value ↔
      GivenBy track.closed time value ∨
        ∃ trace, track.working = some trace ∧ trace.Gives time value := by
  constructor
  · rintro ⟨trace, member, gives⟩
    rcases mem_closed_close.mp member with isClosed | ⟨isWorking, _⟩
    · exact .inl ⟨trace, isClosed, gives⟩
    · exact .inr ⟨trace, isWorking, gives⟩
  · rintro (⟨trace, isClosed, gives⟩ | ⟨trace, isWorking, gives⟩)
    · exact ⟨trace, mem_closed_close.mpr (.inl isClosed), gives⟩
    · have nonempty : trace.samples ≠ [] := fun isEmpty => Trace.not_gives_of_empty isEmpty gives
      exact ⟨trace, mem_closed_close.mpr (.inr ⟨isWorking, nonempty⟩), gives⟩

/-- A record is put at the end of the working trace if it starts about one interval after that
stops, and otherwise starts a trace that has no samples yet. -/
theorem prepare_cases (track : Track) (tolerance : Tolerance) (record : Record) :
    (∃ trace, track.working = some trace ∧ trace.samples ≠ [] ∧
        |record.start - (trace.stop + track.key.interval)| ≤ tolerance.slack track.key.interval ∧
        track.prepare (track.jointOf tolerance record) record = (track, trace)) ∨
      ∃ ready trace, track.prepare (track.jointOf tolerance record) record = (ready, trace) ∧
        ready.closed = track.close.closed ∧ trace.samples = [] ∧ trace.start = record.start ∧
        (trace.rate = record.header.sampleRate ∨
          ∃ former, track.working = some former ∧ trace.rate = former.rate) := by
  simp only [jointOf, Joint.ofStart]
  cases isWorking : track.working with
  | none => exact .inr ⟨track.close, track.newTrace record, rfl, rfl, rfl, rfl, .inl rfl⟩
  | some trace =>
      dsimp only
      split
      next isEmpty =>
        refine .inr ⟨track, trace.setStart record.start, ?_, ?_, isEmpty, rfl,
          .inr ⟨trace, rfl, rfl⟩⟩
        · simp only [prepare, isWorking]
        · simp [close, closedWorking, isWorking, isEmpty]
      next nonempty =>
        split
        next => exact .inr ⟨track.close, track.newTrace record, rfl, rfl, rfl, rfl, .inl rfl⟩
        next notBehind =>
          split
          next => exact .inr ⟨track.close, track.newTrace record, rfl, rfl, rfl, rfl, .inl rfl⟩
          next notAhead =>
            refine .inl ⟨trace, rfl, nonempty, ?_, by simp only [prepare, isWorking]⟩
            exact abs_le.mpr ⟨by omega, by omega⟩

/-- A trace that goes on where a record starts gives the samples of the record once they are put
at its end. -/
theorem gives_extendedBy {trace : Trace}
    (meets : ∀ added, record.trace? trace.interval = some added → trace.next = record.start) :
    (trace.extendedBy record).Gives time value ↔
      trace.Gives time value ∨
        ∃ added, record.trace? trace.interval = some added ∧ added.Gives time value := by
  simp only [Trace.extendedBy]
  simp only [Record.trace?] at meets ⊢
  cases isDecoded : record.samples with
  | error => simp
  | ok samples =>
      rw [isDecoded] at meets
      have goesOn : trace.next = record.start := meets _ rfl
      simp only [Trace.gives_append, goesOn, Option.some.injEq, exists_eq_left']
      exact Iff.rfl

/-- A trace without samples has those of a record afterwards only if they can be decoded. -/
theorem samples_extendedBy_of_empty {trace : Trace} (isEmpty : trace.samples = [])
    (nonempty : (trace.extendedBy record).samples ≠ []) (interval : Int) :
    ∃ added, record.trace? interval = some added := by
  simp only [Trace.extendedBy] at nonempty
  simp only [Record.trace?]
  cases isDecoded : record.samples with
  | error =>
      rw [isDecoded] at nonempty
      exact absurd isEmpty nonempty
  | ok samples => exact ⟨_, rfl⟩

@[simp] theorem start_extendedBy (trace : Trace) (record : Record) :
    (trace.extendedBy record).start = trace.start := by
  simp only [Trace.extendedBy]
  split <;> rfl

@[simp] theorem rate_extendedBy (trace : Trace) (record : Record) :
    (trace.extendedBy record).rate = trace.rate := by
  simp only [Trace.extendedBy]
  split <;> rfl

/-- The traces of a track start whole intervals from a base, have rates of records that it received,
and give what these records give. -/
structure Gathered (track : Track) (base : Int) (received : List Record) : Prop where
  wellFormed : track.WellFormed
  aligned : ∀ trace ∈ track.close.closed, track.key.interval ∣ trace.start - base
  rates : ∀ trace, trace ∈ track.closed ∨ track.working = some trace →
    ∃ record ∈ received, trace.rate = record.header.sampleRate
  givenBy_iff : ∀ time value, GivenBy track.close.closed time value ↔
    GivenBy (decodedTraces track.key.interval received) time value

theorem gathered_ofKey {key : TrackKey} (positive : 0 < key.interval) (base : Int) :
    (ofKey key).Gathered base [] where
  wellFormed := wellFormed_ofKey positive
  aligned := by simp [close, closedWorking, ofKey]
  rates := by simp [ofKey]
  givenBy_iff := by simp [close, closedWorking, ofKey, decodedTraces]

variable {base : Int} {received : List Record}

/-- It is enough to know which trace a record is put at the end of, and that this trace goes on
where the record starts. -/
theorem Gathered.receive_of_prepare (gathered : track.Gathered base received) {ready : Track}
    {trace : Trace}
    (prepared : track.prepare (track.jointOf tolerance record) record = (ready, trace))
    (closedAligned : ∀ other ∈ ready.closed, track.key.interval ∣ other.start - base)
    (traceAligned : (trace.extendedBy record).samples ≠ [] →
      track.key.interval ∣ trace.start - base)
    (closedRates : ∀ other ∈ ready.closed, other ∈ track.closed ∨ track.working = some other)
    (traceRate : trace.rate = record.header.sampleRate ∨
      ∃ former, track.working = some former ∧ trace.rate = former.rate)
    (meets : ∀ added, record.trace? track.key.interval = some added → trace.next = record.start)
    (gives : ∀ time value, GivenBy ready.closed time value ∨ trace.Gives time value ↔
      GivenBy track.close.closed time value) :
    (track.receive tolerance record).Gathered base (received ++ [record]) := by
  have sameInterval : trace.interval = track.key.interval := by
    have spec :=
      interval_prepare gathered.wellFormed.working (track.jointOf tolerance record) record
    rw [prepared] at spec
    exact spec
  have isClosed : (track.receive tolerance record).closed = ready.closed := by
    simp only [Track.receive, prepared]
  have isWorking : (track.receive tolerance record).working = some (trace.extendedBy record) := by
    simp only [Track.receive, prepared]
  constructor
  case wellFormed => exact gathered.wellFormed.receive tolerance record
  case aligned =>
    intro other member
    rw [key_receive]
    rcases mem_closed_close.mp member with wasClosed | ⟨isTrace, nonempty⟩
    · exact closedAligned other (isClosed ▸ wasClosed)
    · rw [isWorking, Option.some.injEq] at isTrace
      subst isTrace
      rw [start_extendedBy]
      exact traceAligned nonempty
  case rates =>
    have known (other : Trace) (isOld : other ∈ track.closed ∨ track.working = some other) :
        ∃ former ∈ received ++ [record], other.rate = former.header.sampleRate := by
      obtain ⟨former, member, sameRate⟩ := gathered.rates other isOld
      exact ⟨former, List.mem_append_left _ member, sameRate⟩
    rintro other (wasClosed | isTrace)
    · exact known other (closedRates other (isClosed ▸ wasClosed))
    · rw [isWorking, Option.some.injEq] at isTrace
      subst isTrace
      rw [rate_extendedBy]
      rcases traceRate with isNew | ⟨former, wasWorking, sameRate⟩
      · exact ⟨record, List.mem_append_right _ List.mem_cons_self, isNew⟩
      · rw [sameRate]
        exact known former (.inr wasWorking)
  case givenBy_iff =>
    intro time value
    rw [givenBy_close, isClosed, isWorking, key_receive, decodedTraces_append, givenBy_append,
      ← gathered.givenBy_iff, ← gives, givenBy_decodedTraces_singleton, or_assoc]
    apply or_congr_right
    simp only [Option.some.injEq, exists_eq_left']
    rw [gives_extendedBy (by rw [sameInterval]; exact meets), sameInterval]

/-- An aligned record adds what it gives, and nothing else. -/
theorem Gathered.receive (gathered : track.Gathered base received)
    (slackSmall : tolerance.slack track.key.interval < track.key.interval)
    (recordAligned : ∀ added, record.trace? track.key.interval = some added →
      track.key.interval ∣ record.start - base) :
    (track.receive tolerance record).Gathered base (received ++ [record]) := by
  rcases prepare_cases track tolerance record with
    ⟨trace, wasWorking, nonempty, near, prepared⟩ |
    ⟨ready, trace, prepared, closed, isEmpty, starts, rate⟩
  · have member : trace ∈ track.close.closed := mem_closed_close.mpr (.inr ⟨wasWorking, nonempty⟩)
    apply gathered.receive_of_prepare prepared
    · intro other wasClosed
      exact gathered.aligned other (mem_closed_close.mpr (.inl wasClosed))
    · intro _
      exact gathered.aligned trace member
    · exact fun other wasClosed => .inl wasClosed
    · exact .inr ⟨trace, wasWorking, rfl⟩
    · intro added isAdded
      exact Trace.next_eq_of_near (gathered.wellFormed.mem_close trace member) slackSmall near
        (dvd_sub_of_base (recordAligned added isAdded) (gathered.aligned trace member))
    · intro time value
      rw [givenBy_close, wasWorking]
      simp
  · apply gathered.receive_of_prepare prepared
    · rw [closed]
      exact gathered.aligned
    · intro nonempty
      obtain ⟨added, isAdded⟩ := samples_extendedBy_of_empty isEmpty nonempty track.key.interval
      rw [starts]
      exact recordAligned added isAdded
    · intro other wasClosed
      rw [closed] at wasClosed
      exact (mem_closed_close.mp wasClosed).imp_right And.left
    · exact rate
    · intro _ _
      simp [Trace.next, Extent.timeAt, isEmpty, starts]
    · intro time value
      rw [closed]
      exact or_iff_left (Trace.not_gives_of_empty isEmpty)

/-- Aligned records, received one after the other, add what they give. -/
theorem Gathered.receiveAll (gathered : track.Gathered base received) {interval : Int}
    (isInterval : track.key.interval = interval)
    (slackSmall : tolerance.slack interval < interval) (records : List Record)
    (aligned : ∀ trace ∈ decodedTraces interval records, interval ∣ trace.start - base) :
    (records.foldl (fun track record => track.receive tolerance record) track).Gathered base
      (received ++ records) := by
  induction records generalizing track received with
  | nil =>
      rw [List.append_nil]
      exact gathered
  | cons record later ih =>
      have recordAligned : ∀ added, record.trace? track.key.interval = some added →
          track.key.interval ∣ record.start - base := by
        intro added isAdded
        rw [← start_of_trace? isAdded, isInterval]
        apply aligned
        rw [isInterval] at isAdded
        exact List.mem_filterMap.mpr ⟨record, List.mem_cons_self, isAdded⟩
      have step := gathered.receive (by rw [isInterval]; exact slackSmall) recordAligned
      rw [List.foldl_cons, List.append_cons]
      apply ih step
      · rw [key_receive, isInterval]
      · intro trace member
        obtain ⟨other, isLater, isTrace⟩ := List.mem_filterMap.mp member
        exact aligned trace (List.mem_filterMap.mpr ⟨other, List.mem_cons_of_mem record isLater,
          isTrace⟩)

end

end Track

end Waveform
