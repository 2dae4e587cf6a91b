import Waveform.Payload.FixedWidth
import Waveform.Payload.Steim

/-!
# Payload encodings

The ways in which a record's samples can be stored, by the codes that records give them.
-/

namespace Waveform

/-- The supported ways to store samples. -/
inductive Encoding where
  | integers16
  | integers32
  | steim (level : Steim.Level)
deriving DecidableEq

namespace Encoding

/-- The encoding of a code. -/
def ofCode? (code : Nat) : Option Encoding :=
  match code with
  | 1 => some .integers16
  | 3 => some .integers32
  | 10 => some (.steim .one)
  | 11 => some (.steim .two)
  | _ => none

/-- How many bytes every sample takes, none if samples are compressed. -/
def sampleWidth : Encoding → Nat
  | .integers16 => 2
  | .integers32 => 4
  | .steim _ => 0

/-- Decode `count` samples of a payload. -/
def decode (encoding : Encoding) (order : ByteOrder) (payload : List UInt8) (count : Nat) :
    Except PayloadError (List Int32) :=
  match encoding with
  | .integers16 => FixedWidth.decode encoding.sampleWidth order payload count
  | .integers32 => FixedWidth.decode encoding.sampleWidth order payload count
  | .steim level => Steim.decode level order payload count

end Encoding

/-- Decode `count` samples of a payload whose encoding is given by its code. -/
def decodePayload (code : Nat) (order : ByteOrder) (payload : List UInt8) (count : Nat) :
    Except PayloadError (List Int32) :=
  match Encoding.ofCode? code with
  | some encoding => encoding.decode order payload count
  | none => .error (.encoding code)

end Waveform
