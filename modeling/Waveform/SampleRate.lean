import Waveform.Decimal.Shortest

/-!
# Legal sample rates

Waveforms are sampled at one of a fixed list of rates, each with its interval between samples in
whole microseconds. A rate computed from a record's rate fields is legal when it lies within one
part in a thousand million of a rate of the list. A tolerance turns an interval into the slack by
which two samples may miss it and still count as neighbours.
-/

namespace Waveform

namespace SampleRate

/-- The legal rates in samples a second, each with its interval in microseconds. -/
def table : List (Float × Int) :=
  [(0.001, 1000000000), (0.01, 100000000), (0.1, 10000000), (1.0, 1000000), (2.5, 400000),
   (4.0, 250000), (5.0, 200000), (10.0, 100000), (20.0, 50000), (40.0, 25000), (50.0, 20000),
   (100.0, 10000), (200.0, 5000), (250.0, 4000), (400.0, 2500), (500.0, 2000), (1000.0, 1000),
   (2000.0, 500), (4000.0, 250), (5000.0, 200)]

/-- The complaint about a rate that is not legal. -/
def illegalMessage (rate : Float) : String := "illegal sample rate " ++ Decimal.shortestText rate

/-- The relative error up to which a computed rate is taken for a legal one. -/
def precision : Float := 1e-9

/-- Whether a computed rate stands for a legal one. -/
def standsFor (rate legal : Float) : Bool := ((rate - legal) / legal).abs < precision

/-- The interval of a rate, if the rate is legal. -/
def interval? (rate : Float) : Option Int :=
  if rate.isFinite && !(rate ≤ 0) then
    (table.find? fun entry => standsFor rate entry.1).map Prod.snd
  else none

/-- The legal rate of an interval. -/
def ofInterval? (interval : Int) : Option Float :=
  (table.find? fun entry => entry.2 = interval).map Prod.fst

/-- A legal rate's interval is one of the table. -/
theorem exists_mem_table_of_interval? {rate : Float} {interval : Int}
    (found : interval? rate = some interval) : ∃ legal, (legal, interval) ∈ table := by
  unfold interval? at found
  split at found
  · obtain ⟨entry, isFound, rfl⟩ := Option.map_eq_some_iff.1 found
    exact ⟨entry.1, List.mem_of_find?_eq_some isFound⟩
  · simp at found

/-- Every interval of the table is positive. -/
theorem pos_of_mem_table {legal : Float} {interval : Int} (member : (legal, interval) ∈ table) :
    0 < interval := by
  simp only [table, List.mem_cons, Prod.mk.injEq, List.not_mem_nil, or_false] at member
  omega

/-- A legal rate's interval is positive. -/
theorem pos_of_interval? {rate : Float} {interval : Int} (found : interval? rate = some interval) :
    0 < interval :=
  let ⟨_, member⟩ := exists_mem_table_of_interval? found
  pos_of_mem_table member

end SampleRate

/-- How far two samples may be from one interval apart and still count as neighbours, as a fraction
of the interval. -/
structure Tolerance where
  fraction : Float
  fraction_valid : (fraction.isFinite && 0 ≤ fraction) = true

namespace Tolerance

/-- The tolerance of a fraction that is finite and not negative. -/
def ofFraction? (fraction : Float) : Option Tolerance :=
  if valid : (fraction.isFinite && 0 ≤ fraction) = true then some ⟨fraction, valid⟩ else none

/-- The complaint about a fraction that is no tolerance. -/
def invalidMessage (fraction : Float) : String :=
  "tolerance must be a non-negative fraction, got " ++ Decimal.shortestText fraction

/-- One hundredth of the interval. -/
def standard : Tolerance := ⟨0.01, by decide⟩

/-- The whole part of the fraction of a natural number of microseconds, no more than sixty-four
bits hold. -/
def part (tolerance : Tolerance) (length : Nat) : Nat :=
  (Float.ofNat length * tolerance.fraction).toUInt64.toNat

/-- The slack around an interval, in whole microseconds within the range of signed sixty-four-bit
numbers; it has the sign of the interval. -/
def slack (tolerance : Tolerance) (interval : Int) : Int :=
  if 0 ≤ interval then min (tolerance.part interval.natAbs) 0x7fffffffffffffff
  else -min (tolerance.part interval.natAbs) 0x8000000000000000

/-- The slack around an interval that is not negative is not negative. -/
theorem slack_nonneg (tolerance : Tolerance) {interval : Int} (nonneg : 0 ≤ interval) :
    0 ≤ tolerance.slack interval := by
  simp only [slack, nonneg, if_true]
  omega

/-- One hundredth of a legal interval is less than the interval. -/
theorem slack_standard_lt {rate : Float} {interval : Int}
    (legal : SampleRate.interval? rate = some interval) : standard.slack interval < interval := by
  have allSmall : ∀ entry ∈ SampleRate.table, standard.slack entry.2 < entry.2 := by
    decide +kernel
  obtain ⟨legalRate, member⟩ := SampleRate.exists_mem_table_of_interval? legal
  exact allSmall (legalRate, interval) member

end Tolerance

end Waveform
