import Waveform.Total

/-!
# Counters of a splitting run

What a run counts: bytes, and records by what became of them. Records that are kept are also counted
under the text of their track's key.
-/

namespace Waveform

/-- How often each of some names was counted, in ascending order of the names. -/
abbrev Tally := List (String × Nat)

namespace Tally

/-- Count a name once more. -/
def count (name : String) : Tally → Tally
  | [] => [(name, 1)]
  | (other, times) :: rest =>
      if name < other then (name, 1) :: (other, times) :: rest
      else if name = other then (other, times + 1) :: rest
      else (other, times) :: count name rest

/-- How often a name was counted. -/
def timesOf (tally : Tally) (name : String) : Nat :=
  match tally with
  | [] => 0
  | (other, times) :: rest => if name = other then times else timesOf rest name

/-- How often all names together were counted. -/
def total (tally : Tally) : Nat := totalOf Prod.snd tally

end Tally

/-- The counters of a splitting run. -/
structure Counters where
  /-- The bytes processed, those skipped included. -/
  bytes : Nat
  /-- The bytes that belong to no record. -/
  skippedBytes : Nat
  /-- Records that were routed to a track. -/
  kept : Nat
  /-- Records that were not, for whatever reason. -/
  discarded : Nat
  /-- Records of channels that are not selected. -/
  filtered : Nat
  /-- Records without samples. -/
  heartbeats : Nat
  /-- Records whose rate is not legal. -/
  illegalRates : Nat
  /-- Records whose header cannot be decoded. -/
  corrupt : Nat
  /-- Kept records whose samples cannot be decoded. -/
  decodeFailures : Nat
  /-- Traces that were closed because of a gap. -/
  gaps : Nat
  /-- Traces that were closed because of an overlap. -/
  overlaps : Nat
  /-- Overlaps out of step that were resolved by cutting the later trace. -/
  timingCorrections : Nat
  /-- The kept records under the texts of their keys. -/
  records : Tally
deriving DecidableEq

namespace Counters

/-- Nothing counted yet. -/
def zero : Counters := ⟨0, 0, 0, 0, 0, 0, 0, 0, 0, 0, 0, 0, []⟩

/-- One if a condition holds. -/
def one (condition : Bool) : Nat := if condition then 1 else 0

/-- Count the bytes of a block, and those that were skipped before it. -/
def addBytes (counters : Counters) (read skipped : Nat) : Counters :=
  { counters with
    bytes := counters.bytes + read + skipped
    skippedBytes := counters.skippedBytes + skipped }

/-- Count a record that is kept, under the text of its key, with what came of it. -/
def addKept (counters : Counters) (key : String) (isGap isOverlap undecoded : Bool) : Counters :=
  { counters with
    kept := counters.kept + 1
    records := Tally.count key counters.records
    gaps := counters.gaps + one isGap
    overlaps := counters.overlaps + one isOverlap
    decodeFailures := counters.decodeFailures + one undecoded }

/-- The numbers counted, each under the name that it has in reports. -/
def numbers (counters : Counters) : List (String × Nat) :=
  [("bytes", counters.bytes), ("skipped_bytes", counters.skippedBytes), ("kept", counters.kept),
   ("discarded", counters.discarded), ("filtered", counters.filtered),
   ("heartbeats", counters.heartbeats), ("illegal_rates", counters.illegalRates),
   ("corrupt", counters.corrupt), ("decode_failures", counters.decodeFailures),
   ("gaps", counters.gaps), ("overlaps", counters.overlaps),
   ("timing_corrections", counters.timingCorrections)]

end Counters

end Waveform
