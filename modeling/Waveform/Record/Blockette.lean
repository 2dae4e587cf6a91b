import Waveform.Record.Header

/-!
# Blockettes

Behind its fixed header a record has a chain of blockettes. Each starts with its kind and the offset
of the next one. Three kinds are decoded: how the samples are stored, how good the clock was, and a
calibration of the instrument; of the others only the kind is kept.
-/

namespace Waveform

/-- How the samples of a record are stored. -/
structure DataFormat where
  /-- The code of the encoding. -/
  encoding : Nat
  /-- The byte order of the samples. -/
  byteOrder : ByteOrder
  /-- The record's length as a power of two. -/
  exponent : Nat
deriving DecidableEq

namespace DataFormat

/-- The record's length in bytes, if it is one of those supported. -/
def lengthInBytes? (format : DataFormat) : Option Nat :=
  if 8 ≤ format.exponent ∧ format.exponent ≤ 14 then some (Nat.pow 2 format.exponent) else none

end DataFormat

/-- How good the clock was. -/
structure ClockQuality where
  /-- The clock quality in hundredths. -/
  quality : Nat
  /-- Microseconds to add to the start time. -/
  microseconds : Int
  frameCount : Nat
deriving DecidableEq

/-- A calibration of the instrument by a pseudo-random signal. -/
structure Calibration where
  start : RecordTime
  flags : Nat
  /-- The duration in ten-thousandths of a second. -/
  duration : Nat
  /-- The height of the steps from peak to peak. -/
  peakAmplitude : Float32
  /-- The channel that holds the calibration signal, empty if none does. -/
  inputChannel : String
  referenceAmplitude : Nat
  coupling : String
  rolloff : String
  noise : String
deriving DecidableEq

namespace Calibration

/-- The duration in microseconds. -/
def durationMicroseconds (calibration : Calibration) : Int := calibration.duration * 100

/-- Whether the calibration was started by a clock. -/
def isAutomatic (calibration : Calibration) : Bool := calibration.flags / 4 % 2 = 1

/-- Whether the calibration goes on from the record before. -/
def isContinued (calibration : Calibration) : Bool := calibration.flags / 8 % 2 = 1

/-- Whether the steps have random heights. -/
def isRandomized (calibration : Calibration) : Bool := calibration.flags / 16 % 2 = 1

/-- Read a calibration from the bytes of its blockette. -/
def read (order : ByteOrder) (bytes : List UInt8) : Calibration where
  start := RecordTime.read order bytes 4
  flags := (byteAt bytes 15).toNat
  duration := wordAt order bytes 16 4
  peakAmplitude := Float32.ofBits (UInt32.ofNat (wordAt order bytes 20 4))
  inputChannel := textAt bytes 24 3
  referenceAmplitude := wordAt order bytes 28 4
  coupling := textAt bytes 32 12
  rolloff := textAt bytes 44 12
  noise := textAt bytes 56 8

end Calibration

/-- A blockette. -/
inductive Blockette where
  | dataFormat (format : DataFormat)
  | clockQuality (clock : ClockQuality)
  | calibration (calibration : Calibration)
  | other (kind : Nat)
deriving DecidableEq

namespace Blockette

/-- The kind of a blockette, as records number it. -/
def kind : Blockette → Nat
  | .dataFormat _ => 1000
  | .clockQuality _ => 1001
  | .calibration _ => 320
  | .other kind => kind

/-- How many bytes a blockette of a kind must have to be decoded. -/
def leastLength (kind : Nat) : Nat :=
  match kind with
  | 1000 => 7
  | 1001 => 8
  | 320 => 64
  | _ => 2

/-- Read a blockette of a kind. -/
def read (order : ByteOrder) (bytes : List UInt8) (kind : Nat) : Blockette :=
  match kind with
  | 1000 =>
      .dataFormat
        { encoding := (byteAt bytes 4).toNat
          byteOrder := if byteAt bytes 5 = 0 then .littleEndian else .bigEndian
          exponent := (byteAt bytes 6).toNat }
  | 1001 =>
      .clockQuality
        { quality := (byteAt bytes 4).toNat
          microseconds := signedWordAt order bytes 5 1
          frameCount := (byteAt bytes 7).toNat }
  | 320 => .calibration (Calibration.read order bytes)
  | kind => .other kind

/-- Decode the blockette at the start of some bytes, if they hold all of it that is needed. -/
def decode? (order : ByteOrder) (bytes : List UInt8) : Option Blockette :=
  let kind := wordAt order bytes 0 2
  if 2 ≤ bytes.length ∧ leastLength kind ≤ bytes.length then some (read order bytes kind) else none

/-- The offset of the blockette after the one at an offset, zero if the buffer ends before it. -/
def nextOffset (order : ByteOrder) (buffer : List UInt8) (offset : Nat) : Nat :=
  if offset + 4 ≤ buffer.length then wordAt order buffer (offset + 2) 2 else 0

/-- The chain of at most `limit` blockettes that starts at an offset. It ends where a blockette is
cut off and where the next offset does not lead forward. -/
def chain (order : ByteOrder) (buffer : List UInt8) : (limit offset : Nat) → List Blockette
  | 0, _ => []
  | limit + 1, offset =>
      if offset < Header.length then []
      else
        match decode? order (buffer.drop offset) with
        | none => []
        | some blockette =>
            let next := nextOffset order buffer offset
            blockette :: if next ≤ offset then [] else chain order buffer limit next

/-- The storage format that a blockette gives. -/
def dataFormat? : Blockette → Option DataFormat
  | .dataFormat found => some found
  | _ => none

/-- The clock quality that a blockette gives. -/
def clock? : Blockette → Option ClockQuality
  | .clockQuality found => some found
  | _ => none

/-- The calibration that a blockette gives. -/
def calibration? : Blockette → Option Calibration
  | .calibration found => some found
  | _ => none

end Blockette

namespace Header

/-- How many blockettes a record may have. -/
def blocketteLimit : Nat := 32

/-- The blockettes of the record in a buffer. -/
def blockettes (header : Header) (buffer : List UInt8) : List Blockette :=
  Blockette.chain header.byteOrder buffer blocketteLimit header.firstBlockette

end Header

end Waveform
