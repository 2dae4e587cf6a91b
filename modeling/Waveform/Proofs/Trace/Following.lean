import Waveform.Proofs.Trace.Runs

/-!
# Traces on one grid

Traces that start whole intervals apart meet exactly: where one follows another, every sample of it
either is one that the other has already or comes after all of these.
-/

namespace Waveform

/-- Whether traces start whole intervals apart and agree at the times that several of them give. -/
structure Consistent (interval : Int) (traces : List Trace) : Prop where
  aligned : ∀ first ∈ traces, ∀ second ∈ traces, interval ∣ first.start - second.start
  agree : ∀ time value other, GivenBy traces time value → GivenBy traces time other → value = other

/-- The starts of consistent traces are whole intervals from one base. -/
theorem Consistent.exists_base {interval : Int} {traces : List Trace}
    (consistent : Consistent interval traces) :
    ∃ base, ∀ trace ∈ traces, interval ∣ trace.start - base := by
  cases traces with
  | nil => exact ⟨0, by simp⟩
  | cons first later =>
      refine ⟨first.start, ?_⟩
      intro trace member
      exact consistent.aligned trace member first List.mem_cons_self

/-- Whether a trace starts no earlier than an earlier one, whole intervals from it, and the two
agree. -/
structure Trace.Follows (trace earlier : Trace) (interval : Int) : Prop where
  taken : trace.TakenAt interval
  earlierTaken : earlier.TakenAt interval
  aligned : interval ∣ trace.start - earlier.start
  ordered : earlier.start ≤ trace.start
  agree : ∀ time value other, earlier.Gives time value → trace.Gives time other → value = other

namespace Trace.Follows

variable {trace earlier : Trace} {interval time : Int} {value : Int32}

theorem time_aligned (follows : trace.Follows earlier interval) (gives : trace.Gives time value) :
    interval ∣ time - earlier.start := by
  have isMultiple := gives.dvd
  rw [follows.taken.interval_eq] at isMultiple
  have sum := Int.dvd_add isMultiple follows.aligned
  rw [sub_add_sub_cancel] at sum
  exact sum

/-- What a trace gives up to the end of the one that it follows, that one gives as well. -/
theorem gives_of_covered (follows : trace.Follows earlier interval) (positive : 0 < interval)
    (notBehind : time ≤ earlier.stop) (gives : trace.Gives time value) :
    earlier.Gives time value := by
  have sameInterval := follows.earlierTaken.interval_eq
  have notBefore := gives.start_le (by simpa [follows.taken.interval_eq] using positive.le)
  obtain ⟨other, covered⟩ := Trace.exists_gives (by simpa [sameInterval] using positive)
    follows.earlierTaken.nonempty (follows.ordered.trans notBefore) notBehind
    (by rw [sameInterval]; exact follows.time_aligned gives)
  rw [← follows.agree time other value covered gives]
  exact covered

/-- The samples of a trace from the index on at which the one that it follows goes on are all
that it adds to it. -/
theorem gives_append_drop (follows : trace.Follows earlier interval) (positive : 0 < interval)
    {count : Nat} (meets : earlier.next = trace.extent.timeAt count) :
    (earlier.append (trace.samples.drop count)).Gives time value ↔
      earlier.Gives time value ∨ trace.Gives time value := by
  have isDropped : ({ earlier with
      start := earlier.next, samples := trace.samples.drop count } : Trace).Gives time value ↔
        trace.Gives time value ∧ trace.extent.timeAt count ≤ time := by
    rw [← Trace.gives_drop (by simpa [follows.taken.interval_eq] using positive), meets]
    simp only [Trace.Gives, Trace.extent]
    rw [follows.taken.interval_eq, follows.earlierTaken.interval_eq]
  rw [Trace.gives_append, isDropped]
  constructor
  · exact Or.imp_right And.left
  · rintro (gives | gives)
    · exact .inl gives
    · rcases le_or_gt time earlier.stop with notBehind | behind
      · exact .inl (follows.gives_of_covered positive notBehind gives)
      · refine .inr ⟨gives, ?_⟩
        rw [← meets]
        exact Trace.next_le_of_stop_lt follows.earlierTaken behind (follows.time_aligned gives)

/-- A trace that starts about where the one that it follows goes on starts exactly there. -/
theorem next_eq_of_continues {slack : Int} (follows : trace.Follows earlier interval)
    (slackSmall : slack < interval) (continues : trace.extent.Continues earlier.extent slack) :
    earlier.next = trace.extent.timeAt 0 := by
  obtain ⟨least, most⟩ := continues
  have sameInterval := follows.earlierTaken.interval_eq
  have near : |trace.start - (earlier.stop + interval)| ≤ slack := by
    change earlier.interval - slack ≤ trace.start - earlier.stop at least
    change trace.start - earlier.stop ≤ earlier.interval + slack at most
    exact abs_le.mpr ⟨by omega, by omega⟩
  rw [Trace.next_eq_of_near follows.earlierTaken slackSmall near follows.aligned]
  simp [Extent.timeAt]

/-- The covered count is exact for a trace that overlaps the one that it follows. -/
theorem next_eq_of_covered (follows : trace.Follows earlier interval) (positive : 0 < interval)
    (meets : trace.start ≤ earlier.stop) :
    earlier.next = trace.extent.timeAt (earlier.extent.coveredCount trace.extent) := by
  have sameInterval := follows.earlierTaken.interval_eq
  have covers := Extent.coversAbout_coveredCount earlier.extent trace.extent
    (by simpa [sameInterval] using positive) meets
  generalize earlier.extent.coveredCount trace.extent = count at covers ⊢
  have isTime : trace.extent.timeAt count = trace.start + interval * count := by
    simp [Extent.timeAt, follows.taken.interval_eq]
  have near : |trace.extent.timeAt count - (earlier.stop + interval)| ≤ interval / 2 := by
    simp only [Extent.CoversAbout] at covers
    rw [Trace.extent_interval, sameInterval] at covers
    change 2 * |earlier.stop + interval - trace.start - interval * count| ≤ interval at covers
    rw [isTime]
    rw [show earlier.stop + interval - trace.start - interval * count =
      -(trace.start + interval * count - (earlier.stop + interval)) by ring, abs_neg] at covers
    omega
  have aligned : interval ∣ trace.extent.timeAt count - earlier.start := by
    rw [isTime, add_sub_right_comm]
    exact Int.dvd_add follows.aligned (Int.dvd_mul_right interval count)
  exact Trace.next_eq_of_near follows.earlierTaken (by omega) near aligned

/-- A trace that starts behind the one that it follows without continuing it starts after a gap. -/
theorem gap_of_apart {slack : Int} (follows : trace.Follows earlier interval)
    (slack_nonneg : 0 ≤ slack) (behind : earlier.stop < trace.start)
    (apart : ¬ trace.extent.Continues earlier.extent slack) :
    earlier.stop + interval < trace.start := by
  have nextTime := Trace.next_of_nonempty follows.earlierTaken.nonempty
  have reached := Trace.next_le_of_stop_lt follows.earlierTaken behind follows.aligned
  have sameInterval := follows.earlierTaken.interval_eq
  rw [sameInterval] at nextTime
  apply lt_of_le_of_ne
  · omega
  · intro adjacent
    apply apart
    simp only [Extent.Continues]
    change earlier.interval - slack ≤ trace.start - earlier.stop ∧
      trace.start - earlier.stop ≤ earlier.interval + slack
    exact ⟨by omega, by omega⟩

theorem inStep {slack : Int} (follows : trace.Follows earlier interval) (slack_nonneg : 0 ≤ slack) :
    trace.extent.InStep earlier.extent slack := by
  obtain ⟨steps, isMultiple⟩ := follows.aligned
  refine ⟨steps, ?_⟩
  rw [Trace.extent_interval, follows.earlierTaken.interval_eq]
  simpa [isMultiple] using slack_nonneg

end Trace.Follows

end Waveform
