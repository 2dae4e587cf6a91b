import Waveform.Trace.Extent

/-!
# Joining two runs of samples

A source is joined to a target that overlaps it or follows it by one interval, give or take a
tolerance. The plan is read off the two extents: which of them comes first, and how many samples of
the later one the earlier one already covers. A plan never looks at samples, so that the same plan
serves samples wherever they are kept.
-/

namespace Waveform

/-- How a source is joined to a target. -/
inductive JoinPlan where
  /-- The target stays as it is and the source is emptied. -/
  | keepTarget
  /-- The two change places. -/
  | exchange
  /-- The samples of the source, without so many at its start, follow those of the target. -/
  | sourceAfter (covered : Nat)
  /-- The samples of the target, without so many at its start, follow those of the source. -/
  | sourceBefore (covered : Nat)
deriving DecidableEq

namespace Extent

/-- Whether a distance between samples counts as one interval. -/
def isAdjacent (interval slack gap : Int) : Bool :=
  interval - slack ≤ gap && gap ≤ interval + slack

/-- How far the samples of two extents of one interval fall between each other: the distance from a
sample of one to the nearest grid time of the other. -/
def misalignment (source target : Extent) : Int :=
  let offset := (source.start - target.start) % source.interval
  min offset (source.interval - offset)

/-- How many samples at the start of a later extent an earlier one covers, when the last time of the
earlier one is rounded to the nearest sample of the later one. -/
def coveredCount (earlier later : Extent) : Nat :=
  ((earlier.stop - later.start + earlier.interval / 2) / earlier.interval + 1).toNat

/-- How to join a source to a target. -/
def joinPlan (source target : Extent) (tolerance : Tolerance) : Except TraceError JoinPlan := do
  source.sameInterval target
  let interval := source.interval
  let slack := tolerance.slack interval
  if source.length = 0 then .ok .keepTarget
  else if target.length = 0 then .ok .exchange
  else if target.stop < source.start then
    let gap := source.start - target.stop
    if isAdjacent interval slack gap then .ok (.sourceAfter 0)
    else .error (.notAdjacent gap interval)
  else if source.stop < target.start then
    let gap := target.start - source.stop
    if isAdjacent interval slack gap then .ok (.sourceBefore 0)
    else .error (.notAdjacent gap interval)
  else if source.isWithin target then .ok .keepTarget
  else if slack < source.misalignment target then
    .error (.misaligned (source.misalignment target) interval)
  else if source.start < target.start then .ok (.sourceBefore (source.coveredCount target))
  else .ok (.sourceAfter (target.coveredCount source))

end Extent

end Waveform
