import Waveform.Proofs.Demux.Accounting
import Waveform.Proofs.Watched

/-!
# Counting in sixty-four bits

Every counter of a run is an unsigned number of 64 bits. No count is too large for it as long as the
blocks hold fewer bytes, and are fewer, than there are such numbers: a record adds at most one to
any counter of records.
-/

namespace Waveform

open Watched

variable {ε : Type}

/-! ## Counters that are watched -/

namespace Counters

/-- Count the bytes of a block, sum by sum. -/
def watchBytes (counters : Counters) (read skipped : Nat) : Watched ε Counters := do
  let here ← unsigned (read + skipped)
  let bytes ← unsigned (counters.bytes + here)
  let skippedBytes ← unsigned (counters.skippedBytes + skipped)
  return { counters with bytes, skippedBytes }

theorem gives_watchBytes {counters : Counters} {read skipped : Nat}
    (bytes : counters.bytes + read + skipped < UInt64.size)
    (fewer : counters.skippedBytes ≤ counters.bytes) :
    Gives (counters.watchBytes read skipped : Watched ε _)
      (.ok (counters.addBytes read skipped)) := by
  refine (gives_unsigned (by omega)).bind ?_
  refine (gives_unsigned (by omega)).bind ?_
  refine (gives_unsigned (by omega)).bind ?_
  rw [← Nat.add_assoc]
  exact gives_pure _

/-- The numbers of records counted, other than those under the texts of keys. -/
def recordCounts (counters : Counters) : List Nat :=
  [counters.kept, counters.discarded, counters.filtered, counters.heartbeats,
   counters.illegalRates, counters.corrupt, counters.decodeFailures, counters.gaps,
   counters.overlaps]

/-- Whether records were counted at most so many times each. -/
structure AtMost (counters : Counters) (limit : Nat) : Prop where
  counts : ∀ count ∈ counters.recordCounts, count ≤ limit
  records : ∀ entry ∈ counters.records, entry.2 ≤ limit
  corrections : counters.timingCorrections = 0

/-- What counting a record has come to. Counters only grow by it, so that no sum was too large if
none is in the end. -/
def watchRecord (counters : Counters) : Watched ε Counters := do
  require (∀ count ∈ counters.recordCounts, count < UInt64.size)
  require (∀ entry ∈ counters.records, entry.2 < UInt64.size)
  return counters

theorem AtMost.gives_watchRecord {counters : Counters} {limit : Nat}
    (atMost : counters.AtMost limit) (few : limit < UInt64.size) :
    Gives (counters.watchRecord : Watched ε _) (.ok counters) := by
  refine (gives_require fun count member => ?_).bind ?_
  · exact Nat.lt_of_le_of_lt (atMost.counts count member) few
  refine (gives_require fun entry member => ?_).bind (gives_pure _)
  exact Nat.lt_of_le_of_lt (atMost.records entry member) few

end Counters

/-! ## Counters that stay small -/

/-- Counting a name once adds at most one to any count. -/
theorem Tally.count_le {tally : Tally} {limit : Nat} (atMost : ∀ entry ∈ tally, entry.2 ≤ limit)
    (name : String) : ∀ entry ∈ count name tally, entry.2 ≤ limit + 1 := by
  induction tally with
  | nil =>
      intro entry member
      obtain rfl := List.mem_singleton.mp member
      exact Nat.le_add_left 1 limit
  | cons first rest ih =>
      obtain ⟨isFirst, areRest⟩ := List.forall_mem_cons.mp atMost
      have others : ∀ entry ∈ rest, entry.2 ≤ limit + 1 := fun entry member =>
        Nat.le_succ_of_le (areRest entry member)
      simp only [count]
      split
      next =>
        refine List.forall_mem_cons.mpr ⟨Nat.le_add_left 1 limit, ?_⟩
        exact List.forall_mem_cons.mpr ⟨Nat.le_succ_of_le isFirst, others⟩
      next =>
        split
        next => exact List.forall_mem_cons.mpr ⟨Nat.succ_le_succ isFirst, others⟩
        next => exact List.forall_mem_cons.mpr ⟨Nat.le_succ_of_le isFirst, ih areRest⟩

namespace Counters

variable {counters : Counters} {limit : Nat}

theorem AtMost.addBytes (atMost : counters.AtMost limit) (read skipped : Nat) :
    (counters.addBytes read skipped).AtMost limit :=
  ⟨atMost.counts, atMost.records, atMost.corrections⟩

theorem AtMost.succ (atMost : counters.AtMost limit) : counters.AtMost (limit + 1) where
  counts count member := Nat.le_succ_of_le (atMost.counts count member)
  records entry member := Nat.le_succ_of_le (atMost.records entry member)
  corrections := atMost.corrections

theorem AtMost.addKept (atMost : counters.AtMost limit) (key : String)
    (isGap isOverlap undecoded : Bool) :
    (counters.addKept key isGap isOverlap undecoded).AtMost (limit + 1) where
  counts := by
    have counts := atMost.counts
    simp only [recordCounts, List.forall_mem_cons, Counters.addKept, one] at counts ⊢
    grind
  records := Tally.count_le atMost.records key
  corrections := atMost.corrections

theorem AtMost.addDiscarded (atMost : counters.AtMost limit) (verdict : Verdict) :
    (counters.addDiscarded verdict).AtMost (limit + 1) := by
  have counts := atMost.counts
  simp only [recordCounts, List.forall_mem_cons] at counts
  cases verdict with
  | kept record key => exact atMost.succ
  | corrupt | heartbeat | filtered | illegalRate =>
      refine ⟨?_, atMost.succ.records, atMost.corrections⟩
      simp only [recordCounts, List.forall_mem_cons, Counters.addDiscarded]
      grind

end Counters

namespace Demux

variable {demux : Demux} {limit : Nat}

end Demux

end Waveform
