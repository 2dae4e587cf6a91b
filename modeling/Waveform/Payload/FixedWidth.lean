import Waveform.ByteOrder
import Waveform.Payload.Chunks
import Waveform.Payload.PayloadError

/-!
# Samples of a fixed width

Samples stored one after the other as two's complement words of the same width.
-/

namespace Waveform.FixedWidth

/-- How many bytes `count` samples of `width` bytes each need. Like every length it is reduced to
sixty-four bits. -/
def neededBytes (width count : Nat) : Nat := count * width % UInt64.size

/-- Samples whose bytes can be addressed need as many as they have. -/
theorem neededBytes_eq {width count : Nat} (addressed : count * width < UInt64.size) :
    neededBytes width count = count * width := Nat.mod_eq_of_lt addressed

/-- Decode the first `count` samples of `width` bytes each. -/
def decode (width : Nat) (order : ByteOrder) (payload : List UInt8) (count : Nat) :
    Except PayloadError (List Int32) :=
  if payload.length < neededBytes width count then
    .error (.tooFewSamples count (payload.length / width))
  else
    .ok (((chunks width payload).take count).map fun word => Int32.ofInt (order.signed word))

end Waveform.FixedWidth
