/-!
# Faults of sample payloads

Why the samples of a record cannot be decoded.
-/

namespace Waveform

/-- Why a payload cannot be decoded. -/
inductive PayloadError where
  /-- The encoding is not one of those supported. -/
  | encoding (code : Nat)
  /-- The payload has no room for the samples of a fixed width that it should hold. -/
  | tooFewSamples (expected held : Nat)
  /-- The payload is shorter than one compressed frame. -/
  | noFrame (actual minimum : Nat)
  /-- The compressed frames hold fewer differences than there are samples. -/
  | tooFewDifferences (expected decoded : Nat)
  /-- A packing code in a data word has no meaning together with the word's nibble. -/
  | packing (code nibble : Nat)
deriving DecidableEq

/-- The complaint about a payload. -/
def PayloadError.message : PayloadError → String
  | .encoding code => s!"unsupported data encoding {code}"
  | .tooFewSamples expected held =>
      s!"decompression failed: expected {expected} samples, data holds {held}"
  | .noFrame _ _ => "Not enough bytes"
  | .tooFewDifferences expected decoded =>
      s!"decompression failed: expected {expected} samples, decoded {decoded}"
  | .packing code nibble =>
      s!"decompression failed: invalid dnib {code} for nibble {nibble}"

end Waveform
