import Waveform.Channel.ChannelId
import Waveform.Payload.Encoding
import Waveform.Record.Blockette

/-!
# Records

A record is its header, its blockettes and its bytes. Its length is known from its beginning, which
is what lets a stream of bytes be cut into records; its samples are decoded on demand.
-/

namespace Waveform

/-- The length of the record at the start of a buffer. The buffer need only hold the header and the
blockettes. -/
def Record.announcedLength (buffer : List UInt8) : Except RecordError Nat := do
  let header ← Header.decode buffer
  match (header.blockettes buffer).findSome? Blockette.dataFormat? with
  | none => .error .noDataBlockette
  | some format =>
      match format.lengthInBytes? with
      | none => .error (.lengthExponent format.exponent)
      | some length => .ok length

/-- A record with a valid start time. -/
structure Record where
  header : Header
  blockettes : List Blockette
  /-- The start time in microseconds since the epoch. -/
  start : Int
  bytes : List UInt8
deriving DecidableEq

namespace Record

/-- Decode a record up to its samples. -/
def decode (bytes : List UInt8) : Except RecordError Record := do
  let header ← Header.decode bytes
  match header.start.micros? with
  | none => .error .invalidStart
  | some start => .ok ⟨header, header.blockettes bytes, start, bytes⟩

/-- The channel that was recorded. -/
def channel (record : Record) : ChannelId where
  network := record.header.network
  station := record.header.station
  location := record.header.location
  channel := record.header.channel

/-- Whether the record carries no samples, but only tells that the station is alive. -/
def isHeartbeat (record : Record) : Bool := record.header.sampleCount = 0

/-- How the samples are stored. -/
def dataFormat? (record : Record) : Option DataFormat :=
  record.blockettes.findSome? Blockette.dataFormat?

/-- The clock quality. -/
def clockQuality? (record : Record) : Option Nat :=
  (record.blockettes.findSome? Blockette.clock?).map ClockQuality.quality

/-- The calibrations. -/
def calibrations (record : Record) : List Calibration :=
  record.blockettes.filterMap Blockette.calibration?

/-- The samples. -/
def samples (record : Record) : Except RecordError (List Int32) :=
  match record.dataFormat? with
  | none => .error .noDataBlockette
  | some format =>
      let offset := record.header.dataOffset
      if Header.length ≤ offset ∧ offset ≤ record.bytes.length then
        (decodePayload format.encoding format.byteOrder (record.bytes.drop offset)
          record.header.sampleCount).mapError .payload
      else .error .payloadOutside

end Record

end Waveform
