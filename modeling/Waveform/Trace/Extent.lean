import Waveform.Signed64
import Waveform.Time.Timestamp
import Waveform.Trace.TraceError

/-!
# Extents

An extent says where samples lie in time: from a start on, one interval apart, so many of them. All
questions of which samples fall into a window, and of how two runs of samples lie to each other, are
questions about extents.
-/

namespace Waveform

/-- The times of a run of samples. -/
structure Extent where
  /-- The time of the first sample, in microseconds since the epoch. -/
  start : Int
  /-- The time between samples in microseconds; zero as long as no rate is known. -/
  interval : Int
  /-- The number of samples. -/
  length : Nat
deriving DecidableEq

namespace Extent

/-- The time of the last sample; an empty extent stops where it starts. -/
def stop (extent : Extent) : Int :=
  if extent.length = 0 then extent.start
  else extent.start + extent.interval * ((extent.length : Int) - 1)

/-- The time of the sample at an index. -/
def timeAt (extent : Extent) (index : Nat) : Int := extent.start + extent.interval * index

/-- Whether a window of time lies between the first and the last sample. -/
def covers (extent : Extent) (first last : Int) : Bool :=
  extent.length ≠ 0 && first ≤ last && extent.start ≤ first && last ≤ extent.stop

/-- Whether two extents have a time in common. -/
def overlaps (first second : Extent) : Bool :=
  first.length ≠ 0 && second.length ≠ 0 && first.start ≤ second.stop && second.start ≤ first.stop

/-- Whether an extent starts and stops no earlier and no later than another one. -/
def isWithin (inner outer : Extent) : Bool := outer.start ≤ inner.start && inner.stop ≤ outer.stop

/-- Fail if two extents have different intervals. -/
def sameInterval (source target : Extent) : Except TraceError Unit :=
  if source.interval = target.interval then .ok ()
  else .error (.intervalMismatch source.interval target.interval)

/-- Whether an extent lies within another one of the same interval. -/
def isPartOf (inner outer : Extent) : Except TraceError Bool := do
  inner.sameInterval outer
  .ok (inner.isWithin outer)

/-- The index of the first sample at or after a time, for a time that is not before the start. -/
def indexFrom (extent : Extent) (time : Int) : Nat :=
  ((time - extent.start + extent.interval - 1) / extent.interval).toNat

/-- How many samples are at or before a time, for a time that is not before the start and as far as
the extent reaches. -/
def countUntil (extent : Extent) (time : Int) : Nat :=
  ((time - extent.start) / extent.interval + 1).toNat

end Extent

/-- A run of consecutive sample indices. -/
structure IndexRun where
  first : Nat
  count : Nat
deriving DecidableEq

namespace Extent

/-- The run of `count` indices from `index` on, if there are as many samples. -/
def run (extent : Extent) (index count : Nat) : Except TraceError IndexRun :=
  if index + count ≤ extent.length then .ok ⟨index, count⟩
  else .error (.outOfRange index count extent.length)

/-- The run of `count` indices from the first sample at or after a time that is covered. -/
def runFrom (extent : Extent) (time : Int) (count : Nat) : Except TraceError IndexRun :=
  if extent.covers time time then
    if extent.interval = 0 then .error .noInterval
    else extent.run (extent.indexFrom time) count
  else .error (.outOfTime time time)

/-- The run of the samples in a window that is covered. -/
def runBetween (extent : Extent) (first last : Int) : Except TraceError IndexRun :=
  if extent.covers first last then
    if extent.interval = 0 then .error .noInterval
    else
      let index := extent.indexFrom first
      .ok ⟨index, extent.countUntil last - index⟩
  else .error (.outOfTime first last)

/-- The index that a window from a time on begins with. The extent is taken to span no more time
than a signed number of 64 bits can tell; a time before the start may be farther away, and its
distance wraps round. -/
def firstIndex (extent : Extent) (time : Int) : Int :=
  if extent.start ≤ time then (time - extent.start + extent.interval - 1) / extent.interval
  else signed64 (max (signed64 (time - extent.start)) 0 + extent.interval - 1) / extent.interval

/-- The index that a window up to a time ends with, for a time that is not before the start. It may
lie behind the extent; the distance of such a time wraps round. -/
def lastIndex (extent : Extent) (time : Int) : Int :=
  if time ≤ extent.stop then (time - extent.start) / extent.interval
  else (signed64 (time - extent.start)).tdiv extent.interval

/-- The run of the samples in a window of any place; it has no index if there are none. -/
def runWithin (extent : Extent) (first last : Int) : Except TraceError IndexRun :=
  if extent.length = 0 ∨ last < first ∨ last < extent.start ∨ extent.stop < first then .ok ⟨0, 0⟩
  else if extent.interval = 0 then .error .noInterval
  else
    let lowest := extent.firstIndex first
    let highest := min (extent.lastIndex last) (extent.length - 1)
    if highest < lowest then .ok ⟨0, 0⟩
    else if lowest = 0 ∧ highest = extent.length - 1 then .ok ⟨0, extent.length⟩
    else extent.run (unsigned64 lowest) (unsigned64 (highest - lowest + 1))

/-- What is left of an extent when only a run of its samples is kept: without any samples the start
stays where it is. -/
def keep (extent : Extent) (kept : IndexRun) : Extent :=
  if kept.count = 0 then { extent with length := 0 }
  else { extent with start := extent.timeAt kept.first, length := kept.count }

/-- The text of an extent. -/
def text (extent : Extent) : String :=
  "Sequence \x7b start: \"" ++ Time.text extent.start ++ "\", end: \"" ++ Time.text extent.stop ++
    "\", length: " ++ toString extent.length ++ ", interval: " ++ toString extent.interval ++
    " \x7d"

/-- The last sample of an extent that has any is its stop. -/
theorem timeAt_last {extent : Extent} (nonempty : extent.length ≠ 0) :
    extent.timeAt (extent.length - 1) = extent.stop := by
  have sizePositive : 1 ≤ extent.length := Nat.pos_of_ne_zero nonempty
  simp [timeAt, stop, nonempty, Int.natCast_sub sizePositive]

end Extent

end Waveform
