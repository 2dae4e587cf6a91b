import Waveform.Proofs.Trace.Windows
import Waveform.Proofs.Watched

/-!
# Distances in sixty-four bits

Where an extent stops, which of its samples a window has and how another extent is joined to it is
computed from times and from distances between them, step by step, and each step has to fit in a
signed number of 64 bits. For extents within reach it does: these start no earlier than records tell
of, and leave a quarter of the later times free.
-/

namespace Waveform

open Watched

namespace Extent

/-- Whether an extent is such as records and what is formed of them have. -/
structure InReach (extent : Extent) : Prop where
  positive : 0 < extent.interval
  short : extent.interval ≤ 2 ^ 30
  notEarly : -2 ^ 52 ≤ extent.start
  notLate : extent.stop ≤ 2 ^ 62 + 2 ^ 61

variable {ε : Type} {extent source target : Extent} {tolerance : Tolerance}

theorem InReach.start_le_stop (inReach : extent.InReach) : extent.start ≤ extent.stop :=
  Extent.start_le_stop extent inReach.positive.le

theorem InReach.length_lt (inReach : extent.InReach) : extent.length < UInt64.size := by
  obtain ⟨positive, _, notEarly, notLate⟩ := inReach
  rw [UInt64.size]
  by_cases isEmpty : extent.length = 0
  · omega
  · rw [stop, if_neg isEmpty] at notLate
    have atLeast := mul_le_mul_of_nonneg_right (Int.add_one_le_of_lt positive)
      (show (0 : Int) ≤ extent.length - 1 by omega)
    omega

/-! ## Stops -/

/-- The time of the last sample. -/
def watchStop (extent : Extent) : Watched ε Int :=
  if extent.length = 0 then return extent.start
  else do
    let span ← signed (extent.interval * (extent.length - 1))
    signed (extent.start + span)

theorem InReach.gives_watchStop (inReach : extent.InReach) :
    Gives (extent.watchStop : Watched ε _) (.ok extent.stop) := by
  have order := inReach.start_le_stop
  obtain ⟨positive, short, notEarly, notLate⟩ := inReach
  rw [stop] at order notLate
  rw [watchStop, stop]
  split
  next => exact gives_pure _
  next nonempty =>
    rw [if_neg nonempty] at order notLate
    refine (gives_signed ⟨by omega, by omega⟩).bind ?_
    exact gives_signed ⟨by omega, by omega⟩

/-! ## Windows -/

end Extent

end Waveform
