import Waveform.ByteOrder
import Waveform.Record.RecordError
import Waveform.Text.Blank
import Waveform.Text.Utf8
import Waveform.Time.RecordTime

/-!
# The fixed header of a record

A record starts with forty-eight bytes of fixed layout: who recorded, from when on, how many samples
at what rate, and where the samples and the first blockette stand. The header does not say in which
byte order its words are stored; the order is the first one in which the start time is sensible.
-/

namespace Waveform

/-- The unsigned word of `width` bytes at an offset. -/
def wordAt (order : ByteOrder) (buffer : List UInt8) (offset width : Nat) : Nat :=
  order.unsigned (bytesAt buffer offset width)

/-- The two's complement word of `width` bytes at an offset. -/
def signedWordAt (order : ByteOrder) (buffer : List UInt8) (offset width : Nat) : Int :=
  order.signed (bytesAt buffer offset width)

/-- The byte at an offset, zero past the end. -/
def byteAt (buffer : List UInt8) (offset : Nat) : UInt8 := buffer.getD offset 0

/-- The text of `width` bytes at an offset, without blanks around it. -/
def textAt (buffer : List UInt8) (offset width : Nat) : String :=
  Text.trimBlank (Text.ofUtf8 (bytesAt buffer offset width))

namespace RecordTime

/-- Read the ten bytes of a time at an offset. -/
def read (order : ByteOrder) (buffer : List UInt8) (offset : Nat) : RecordTime where
  year := wordAt order buffer offset 2
  day := wordAt order buffer (offset + 2) 2
  hour := (byteAt buffer (offset + 4)).toNat
  minute := (byteAt buffer (offset + 5)).toNat
  second := (byteAt buffer (offset + 6)).toNat
  tenthMillis := wordAt order buffer (offset + 8) 2

/-- Whether year and day are such as a record may start with. -/
def isSensible (time : RecordTime) : Bool :=
  1900 ≤ time.year ∧ time.year ≤ 2100 ∧ 1 ≤ time.day ∧ time.day ≤ 366

end RecordTime

/-- The fixed header of a record. -/
structure Header where
  sequenceNumber : String
  indicator : Char
  station : String
  location : String
  channel : String
  network : String
  start : RecordTime
  sampleCount : Nat
  rateFactor : Int
  rateMultiplier : Int
  activityFlags : Nat
  ioFlags : Nat
  qualityFlags : Nat
  blocketteCount : Nat
  /-- The time correction in ten-thousandths of a second. -/
  timeCorrection : Int
  dataOffset : Nat
  firstBlockette : Nat
  /-- The byte order of the header's words. -/
  byteOrder : ByteOrder
deriving DecidableEq

namespace Header

/-- How many bytes the fixed header has. -/
def length : Nat := 48

/-- The known quality indicators. -/
def indicators : List Char := ['D', 'M', 'Q']

/-- Where the start time stands. -/
def startOffset : Nat := 20

/-- Read the fields of a header in a byte order. -/
def read (order : ByteOrder) (buffer : List UInt8) : Header where
  sequenceNumber := textAt buffer 0 6
  indicator := Char.ofNat (byteAt buffer 6).toNat
  station := textAt buffer 8 5
  location := textAt buffer 13 2
  channel := textAt buffer 15 3
  network := textAt buffer 18 2
  start := RecordTime.read order buffer startOffset
  sampleCount := wordAt order buffer 30 2
  rateFactor := signedWordAt order buffer 32 2
  rateMultiplier := signedWordAt order buffer 34 2
  activityFlags := (byteAt buffer 36).toNat
  ioFlags := (byteAt buffer 37).toNat
  qualityFlags := (byteAt buffer 38).toNat
  blocketteCount := (byteAt buffer 39).toNat
  timeCorrection := signedWordAt order buffer 40 4
  dataOffset := wordAt order buffer 44 2
  firstBlockette := wordAt order buffer 46 2
  byteOrder := order

/-- The byte order of a header: the first in which its start time is sensible. -/
def detectOrder? (buffer : List UInt8) : Option ByteOrder :=
  [ByteOrder.bigEndian, ByteOrder.littleEndian].find? fun order =>
    (RecordTime.read order buffer startOffset).isSensible

/-- Whether a byte is a known quality indicator. -/
def isIndicator (byte : UInt8) : Bool := indicators.contains (Char.ofNat byte.toNat)

/-- Decode the header at the start of a buffer. -/
def decode (buffer : List UInt8) : Except RecordError Header :=
  if buffer.length < length then .error (.tooShort buffer.length length)
  else if !isIndicator (byteAt buffer 6) then .error (.indicator (byteAt buffer 6))
  else
    match detectOrder? buffer with
    | none => .error .implausibleStart
    | some order => .ok (read order buffer)

/-- The sample rate in samples a second. A positive factor is a rate and a negative one a period; a
positive multiplier multiplies and a negative one divides. No factor means no rate, and no
multiplier means one. -/
def sampleRate (header : Header) : Float :=
  let factor := Float.ofInt header.rateFactor
  let multiplier := if header.rateMultiplier = 0 then 1 else Float.ofInt header.rateMultiplier
  if header.rateFactor = 0 then 0
  else
    match decide (0 < header.rateFactor), decide (0 ≤ header.rateMultiplier) with
    | true, true => factor * multiplier
    | true, false => -factor / multiplier
    | false, true => -multiplier / factor
    | false, false => 1 / (factor * multiplier)

end Header

end Waveform
