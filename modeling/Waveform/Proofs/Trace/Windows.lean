import Waveform.Proofs.Trace.Joining

/-!
# Samples in a window of time

The indices that a window selects are exactly those of the samples whose times lie in it, so that a
narrowed trace holds these samples and no others.
-/

namespace Waveform

namespace Extent

theorem timeAt_mono {extent : Extent} (nonneg : 0 ≤ extent.interval) {first second : Nat}
    (ordered : first ≤ second) : extent.timeAt first ≤ extent.timeAt second := by
  have product := mul_le_mul_of_nonneg_left (Int.ofNat_le.mpr ordered) nonneg
  exact Int.add_le_add_left product extent.start

theorem start_le_timeAt {extent : Extent} (nonneg : 0 ≤ extent.interval) (index : Nat) :
    extent.start ≤ extent.timeAt index := by
  have first := timeAt_mono nonneg (Nat.zero_le index)
  simpa [timeAt] using first

theorem timeAt_le_stop {extent : Extent} (nonneg : 0 ≤ extent.interval) {index : Nat}
    (inside : index < extent.length) : extent.timeAt index ≤ extent.stop := by
  rw [← timeAt_last (show extent.length ≠ 0 by omega)]
  exact timeAt_mono nonneg (by omega)

/-- The index of a time is the least one whose sample is no earlier. -/
theorem indexFrom_le_iff {extent : Extent} (positive : 0 < extent.interval) (time : Int)
    (index : Nat) : extent.indexFrom time ≤ index ↔ time ≤ extent.timeAt index := by
  have division := Int.mul_ediv_add_emod (time - extent.start + extent.interval - 1)
    extent.interval
  have remainder_nonneg := Int.emod_nonneg (time - extent.start + extent.interval - 1) positive.ne'
  have remainder_lt := Int.emod_lt_of_pos (time - extent.start + extent.interval - 1) positive
  simp only [indexFrom, timeAt]
  rw [Int.toNat_le]
  generalize (time - extent.start + extent.interval - 1) / extent.interval = quotient at *
  constructor
  · intro below
    have product := mul_le_mul_of_nonneg_left below positive.le
    linarith
  · intro reached
    by_contra above
    have product := mul_le_mul_of_nonneg_left (Int.add_one_le_of_lt (not_le.mp above)) positive.le
    rw [mul_add, mul_one] at product
    linarith

/-- The samples counted up to a time are those that are no later. -/
theorem lt_countUntil_iff {extent : Extent} (positive : 0 < extent.interval) (time : Int)
    (index : Nat) : index < extent.countUntil time ↔ extent.timeAt index ≤ time := by
  have division := Int.mul_ediv_add_emod (time - extent.start) extent.interval
  have remainder_nonneg := Int.emod_nonneg (time - extent.start) positive.ne'
  have remainder_lt := Int.emod_lt_of_pos (time - extent.start) positive
  simp only [countUntil, timeAt]
  rw [Int.lt_toNat, Int.lt_add_one_iff]
  generalize (time - extent.start) / extent.interval = quotient at *
  constructor
  · intro below
    have product := mul_le_mul_of_nonneg_left below positive.le
    linarith
  · intro reached
    by_contra above
    have product := mul_le_mul_of_nonneg_left (Int.add_one_le_of_lt (not_le.mp above)) positive.le
    rw [mul_add, mul_one] at product
    linarith

end Extent

/-- Whether an index is one of a run. -/
def IndexRun.Selects (run : IndexRun) (index : Nat) : Prop :=
  run.first ≤ index ∧ index < run.first + run.count

namespace Extent

/-- Whether the distances from the start to the ends of a window are such that the arithmetic on
them is exact. -/
structure IsNear (extent : Extent) (first last : Int) : Prop where
  first : extent.start ≤ first ∨ -2 ^ 63 ≤ first - extent.start ∧ extent.interval ≤ 2 ^ 63
  last : last ≤ extent.stop ∨ last - extent.start < 2 ^ 63

/-- A window that begins before the start, but not too far before, has all the first samples. -/
theorem firstIndex_of_lt_start {extent : Extent} (positive : 0 < extent.interval)
    (short : extent.interval ≤ 2 ^ 63) {time : Int} (before : time < extent.start)
    (near : -2 ^ 63 ≤ time - extent.start) : extent.firstIndex time = 0 := by
  have isDistance : signed64 (time - extent.start) = time - extent.start :=
    signed64_of_fits ⟨near, by omega⟩
  have noneSkipped : max (time - extent.start) 0 = 0 := max_eq_right (by omega)
  have isSum : signed64 (0 + extent.interval - 1) = extent.interval - 1 := by
    rw [zero_add]
    exact signed64_of_fits ⟨by omega, by omega⟩
  rw [firstIndex, if_neg (not_le.mpr before), isDistance, noneSkipped, isSum]
  exact Int.ediv_eq_zero_of_lt (by omega) (by omega)

/-- The index that a window begins with is the least one whose sample is no earlier. -/
theorem firstIndex_spec {extent : Extent} (positive : 0 < extent.interval) {time : Int}
    (near : extent.start ≤ time ∨ -2 ^ 63 ≤ time - extent.start ∧ extent.interval ≤ 2 ^ 63) :
    0 ≤ extent.firstIndex time ∧
      ∀ index : Nat, extent.firstIndex time ≤ index ↔ time ≤ extent.timeAt index := by
  by_cases reached : extent.start ≤ time
  · have isIndex : extent.firstIndex time =
        (time - extent.start + extent.interval - 1) / extent.interval := if_pos reached
    refine ⟨isIndex ▸ Int.ediv_nonneg (by omega) positive.le, ?_⟩
    intro index
    rw [isIndex, ← Int.toNat_le]
    exact indexFrom_le_iff positive time index
  · obtain ⟨notFar, short⟩ := near.resolve_left reached
    have isIndex := firstIndex_of_lt_start positive short (not_le.mp reached) notFar
    refine ⟨isIndex.ge, ?_⟩
    intro index
    rw [isIndex]
    have afterStart := start_le_timeAt positive.le index
    exact iff_of_true (Int.natCast_nonneg index) (by omega)

/-- The index that a window ends with is the greatest one whose sample is no later. -/
theorem le_lastIndex_iff {extent : Extent} (positive : 0 < extent.interval) {time : Int}
    (notBefore : extent.start ≤ time) (near : time ≤ extent.stop ∨ time - extent.start < 2 ^ 63)
    (index : Nat) : index ≤ extent.lastIndex time ↔ extent.timeAt index ≤ time := by
  have isIndex : extent.lastIndex time = (time - extent.start) / extent.interval := by
    simp only [lastIndex]
    split
    next => rfl
    next beyond =>
      rw [signed64_of_fits ⟨by omega, near.resolve_left beyond⟩]
      exact Int.tdiv_eq_ediv_of_nonneg (by omega)
  have counted := lt_countUntil_iff positive time index
  rw [countUntil, Int.lt_toNat, Int.lt_add_one_iff] at counted
  rw [isIndex, counted]

/-- Narrowing selects the samples whose times lie in the window. -/
theorem runWithin_selects {extent : Extent} (positive : 0 < extent.interval) {first last : Int}
    (near : extent.IsNear first last) :
    ∃ run, extent.runWithin first last = .ok run ∧
      ∀ index, run.Selects index ↔
        index < extent.length ∧ first ≤ extent.timeAt index ∧ extent.timeAt index ≤ last := by
  simp only [runWithin]
  split
  next outside =>
    refine ⟨⟨0, 0⟩, rfl, fun index => ⟨?_, ?_⟩⟩
    · rintro ⟨_, belowNone⟩
      exact absurd belowNone (by simp)
    · rintro ⟨inside, reached, notAfter⟩
      exfalso
      have afterStart := start_le_timeAt positive.le index
      have beforeStop := timeAt_le_stop positive.le inside
      rcases outside with isEmpty | inverted | before | after <;> omega
  next meets =>
    rw [if_neg positive.ne']
    obtain ⟨lowest_nonneg, lower⟩ := firstIndex_spec positive near.first
    have upper := le_lastIndex_iff positive (by omega) near.last
    -- the rest is about the two indices alone
    simp only [IndexRun.Selects, ← lower, ← upper]
    generalize extent.firstIndex first = lowest at *
    generalize extent.lastIndex last = highest at *
    split
    next => exact ⟨_, rfl, fun index => by dsimp only; omega⟩
    next =>
      split
      next => exact ⟨_, rfl, fun index => by dsimp only; omega⟩
      next =>
        rw [unsigned64_of_nonneg lowest_nonneg, unsigned64_of_nonneg (by omega), run,
          if_pos (by omega)]
        exact ⟨_, rfl, fun index => by dsimp only; omega⟩

/-! ## Windows that are not near

Of a window whose ends are so far from the start that their distances wrap round, the samples are
missed: all of them if it begins too early, and all but perhaps the first one if it ends too late.
-/

section

variable {extent : Extent} {first last : Int}

end

/-! ## Runs within bounds -/

end Extent

/-- Whether a run, if it has indices, stays within so many. -/
def IndexRun.FitsIn (run : IndexRun) (length : Nat) : Prop :=
  run.count ≠ 0 → run.first + run.count ≤ length

namespace Extent

variable {extent : Extent} {run : IndexRun}

theorem run_fits {index count : Nat} (isRun : extent.run index count = .ok run) :
    run.FitsIn extent.length := by
  simp only [Extent.run] at isRun
  split at isRun
  next inside =>
    cases isRun
    exact fun _ => inside
  next => cases isRun

theorem runFrom_fits {time : Int} {count : Nat} (isRun : extent.runFrom time count = .ok run) :
    run.FitsIn extent.length := by
  simp only [runFrom] at isRun
  split at isRun
  next =>
    split at isRun
    next => cases isRun
    next => exact run_fits isRun
  next => cases isRun

theorem runWithin_fits {first last : Int} (isRun : extent.runWithin first last = .ok run) :
    run.FitsIn extent.length := by
  have noneFits : (⟨0, 0⟩ : IndexRun).FitsIn extent.length := fun some => absurd rfl some
  simp only [runWithin] at isRun
  split at isRun
  next =>
    cases isRun
    exact noneFits
  next =>
    split at isRun
    next => cases isRun
    next =>
      split at isRun
      next =>
        cases isRun
        exact noneFits
      next =>
        split at isRun
        next =>
          cases isRun
          exact fun _ => (Nat.zero_add extent.length).le
        next => exact run_fits isRun

/-- A covered window reaches no further than the last sample. -/
theorem runBetween_fits (nonneg : 0 ≤ extent.interval) {first last : Int}
    (isRun : extent.runBetween first last = .ok run) : run.FitsIn extent.length := by
  simp only [runBetween] at isRun
  split at isRun
  next isCovered =>
    split at isRun
    next => cases isRun
    next some =>
      cases isRun
      have positive : 0 < extent.interval := lt_of_le_of_ne nonneg (Ne.symm some)
      have bounds : extent.length ≠ 0 ∧ last ≤ extent.stop := by
        simp only [covers, Bool.and_eq_true, decide_eq_true_eq] at isCovered
        exact ⟨by simpa using isCovered.1.1.1, isCovered.2⟩
      have notMore : extent.countUntil last ≤ extent.length := by
        by_contra more
        have beyond := (lt_countUntil_iff positive last extent.length).mp (not_le.mp more)
        have lastTime := stop_of_nonempty extent bounds.1
        rw [mul_sub, mul_one] at lastTime
        simp only [timeAt] at beyond
        omega
      intro nonempty
      dsimp only at nonempty ⊢
      omega
  next => cases isRun

/-- What is kept starts at the first sample that is kept. -/
theorem start_keep {extent : Extent} {kept : IndexRun} (some : kept.count ≠ 0) :
    (extent.keep kept).start = extent.timeAt kept.first := by
  simp [keep, some]

end Extent

namespace Trace

/-- Narrowing a trace of a positive interval keeps the samples whose times lie in the window. -/
theorem crop_keeps {trace : Trace} (positive : 0 < trace.interval) {first last : Int}
    (near : trace.extent.IsNear first last) :
    ∃ kept, trace.crop first last = .ok (trace.keep kept) ∧
      ∀ index, kept.Selects index ↔ index < trace.samples.length ∧
        first ≤ trace.extent.timeAt index ∧ trace.extent.timeAt index ≤ last := by
  obtain ⟨kept, isRun, selects⟩ := Extent.runWithin_selects positive near
  exact ⟨kept, by rw [crop, isRun]; rfl, selects⟩

/-- A window up to the end of a trace is near from the start of the trace on. -/
theorem isNear_of_start_le {trace : Trace} {first : Int} (notBefore : trace.start ≤ first) :
    trace.extent.IsNear first trace.stop :=
  ⟨.inl notBefore, .inl le_rfl⟩

/-- A trace without the samples before a time that is not before its start starts no earlier than
that, if anything is left of it. -/
theorem dropBefore_spec {trace : Trace} (positive : 0 < trace.interval) {first : Int}
    (notBefore : trace.start ≤ first) :
    ∃ rest, trace.dropBefore first = .ok rest ∧ rest.interval = trace.interval ∧
      (rest.samples ≠ [] → first ≤ rest.start) := by
  obtain ⟨kept, isKept, selects⟩ := crop_keeps positive (isNear_of_start_le notBefore)
  refine ⟨trace.keep kept, isKept, rfl, ?_⟩
  intro nonempty
  have some : kept.count ≠ 0 := by
    rintro none
    simp [keep, read, none] at nonempty
  have selected := (selects kept.first).mp ⟨le_rfl, by omega⟩
  simpa [keep, Extent.start_keep some] using selected.2.1

end Trace

end Waveform
