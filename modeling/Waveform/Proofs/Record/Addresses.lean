import Waveform.Demux.Verdict
import Waveform.Proofs.Payload.Addresses

/-!
# Reading records at addresses

A header, its blockettes and its samples are read field by field, each at its address, and the
reading is watched: it comes to nothing as soon as a read would leave the bytes. This never happens,
whatever the bytes are. A header is read only where its forty-eight bytes are there, and a blockette
only where as many bytes are there as its kind needs.
-/

namespace Waveform

namespace Watched

variable {ε : Type}

def readByte (buffer : List UInt8) (address : Nat) : Watched ε UInt8 := do
  require (address < buffer.length)
  return byteAt buffer address

def readWord (order : ByteOrder) (buffer : List UInt8) (address width : Nat) : Watched ε Nat := do
  let word ← readAt buffer address width
  return order.unsigned word

def readSigned (order : ByteOrder) (buffer : List UInt8) (address width : Nat) :
    Watched ε Int := do
  let word ← readAt buffer address width
  return order.signed word

def readText (buffer : List UInt8) (address width : Nat) : Watched ε String := do
  let text ← readAt buffer address width
  return Text.trimBlank (Text.ofUtf8 text)

variable {buffer : List UInt8} {address width : Nat}

theorem gives_readByte (inside : address < buffer.length) :
    Gives (readByte buffer address : Watched ε _) (.ok (byteAt buffer address)) :=
  (gives_require inside).bind (gives_pure _)

theorem gives_readWord (order : ByteOrder) (inside : address + width ≤ buffer.length) :
    Gives (readWord order buffer address width : Watched ε _)
      (.ok (wordAt order buffer address width)) :=
  (gives_readAt inside).bind (gives_pure _)

theorem gives_readSigned (order : ByteOrder) (inside : address + width ≤ buffer.length) :
    Gives (readSigned order buffer address width : Watched ε _)
      (.ok (signedWordAt order buffer address width)) :=
  (gives_readAt inside).bind (gives_pure _)

theorem gives_readText (inside : address + width ≤ buffer.length) :
    Gives (readText buffer address width : Watched ε _) (.ok (textAt buffer address width)) :=
  (gives_readAt inside).bind (gives_pure _)

end Watched

open Watched

variable {ε : Type} {buffer : List UInt8}

/-! ## Headers -/

namespace RecordTime

/-- Read the ten bytes of a time, each at its address. -/
def watch (order : ByteOrder) (buffer : List UInt8) (offset : Nat) : Watched ε RecordTime := do
  let year ← readWord order buffer offset 2
  let day ← readWord order buffer (offset + 2) 2
  let hour ← readByte buffer (offset + 4)
  let minute ← readByte buffer (offset + 5)
  let second ← readByte buffer (offset + 6)
  let tenthMillis ← readWord order buffer (offset + 8) 2
  return { year, day, hour := hour.toNat, minute := minute.toNat, second := second.toNat,
           tenthMillis }

theorem gives_watch (order : ByteOrder) {offset : Nat} (inside : offset + 10 ≤ buffer.length) :
    Gives (watch order buffer offset : Watched ε _) (.ok (read order buffer offset)) := by
  refine (gives_readWord order (by omega)).bind ?_
  refine (gives_readWord order (by omega)).bind ?_
  refine (gives_readByte (by omega)).bind ?_
  refine (gives_readByte (by omega)).bind ?_
  refine (gives_readByte (by omega)).bind ?_
  refine (gives_readWord order (by omega)).bind ?_
  exact gives_pure _

end RecordTime

namespace Header

/-- The first of some byte orders in which the start time is sensible. -/
def watchOrder (buffer : List UInt8) : List ByteOrder → Watched ε (Option ByteOrder)
  | [] => return none
  | order :: others => do
      let start ← RecordTime.watch order buffer startOffset
      if start.isSensible then return some order else watchOrder buffer others

/-- Read the fields of a header, each at its address. -/
def watchRead (order : ByteOrder) (buffer : List UInt8) : Watched ε Header := do
  let sequenceNumber ← readText buffer 0 6
  let indicator ← readByte buffer 6
  let station ← readText buffer 8 5
  let location ← readText buffer 13 2
  let channel ← readText buffer 15 3
  let network ← readText buffer 18 2
  let start ← RecordTime.watch order buffer startOffset
  let sampleCount ← readWord order buffer 30 2
  let rateFactor ← readSigned order buffer 32 2
  let rateMultiplier ← readSigned order buffer 34 2
  let activityFlags ← readByte buffer 36
  let ioFlags ← readByte buffer 37
  let qualityFlags ← readByte buffer 38
  let blocketteCount ← readByte buffer 39
  let timeCorrection ← readSigned order buffer 40 4
  let dataOffset ← readWord order buffer 44 2
  let firstBlockette ← readWord order buffer 46 2
  return { sequenceNumber, indicator := Char.ofNat indicator.toNat, station, location, channel,
           network, start, sampleCount, rateFactor, rateMultiplier,
           activityFlags := activityFlags.toNat, ioFlags := ioFlags.toNat,
           qualityFlags := qualityFlags.toNat, blocketteCount := blocketteCount.toNat,
           timeCorrection, dataOffset, firstBlockette, byteOrder := order }

/-- Decode the header at the start of a buffer, reading each field at its address. -/
def watch (buffer : List UInt8) : Watched RecordError Header :=
  if buffer.length < length then throw (.tooShort buffer.length length)
  else do
    let indicator ← readByte buffer 6
    if !isIndicator indicator then throw (.indicator indicator)
    else
      match ← watchOrder buffer [.bigEndian, .littleEndian] with
      | none => throw .implausibleStart
      | some order => watchRead order buffer

theorem gives_watchOrder (enough : length ≤ buffer.length) (orders : List ByteOrder) :
    Gives (watchOrder buffer orders : Watched ε _)
      (.ok (orders.find? fun order =>
        (RecordTime.read order buffer startOffset).isSensible)) := by
  rw [length] at enough
  induction orders with
  | nil => exact gives_pure none
  | cons order others ih =>
      refine (RecordTime.gives_watch order (by rw [startOffset]; omega)).bind ?_
      rw [List.find?_cons]
      cases isSensible : (RecordTime.read order buffer startOffset).isSensible with
      | true => exact gives_pure _
      | false => exact ih

theorem gives_watchRead (order : ByteOrder) (enough : length ≤ buffer.length) :
    Gives (watchRead order buffer : Watched ε _) (.ok (read order buffer)) := by
  rw [length] at enough
  refine (gives_readText (by omega)).bind ?_
  refine (gives_readByte (by omega)).bind ?_
  refine (gives_readText (by omega)).bind ?_
  refine (gives_readText (by omega)).bind ?_
  refine (gives_readText (by omega)).bind ?_
  refine (gives_readText (by omega)).bind ?_
  refine (RecordTime.gives_watch order (by rw [startOffset]; omega)).bind ?_
  refine (gives_readWord order (by omega)).bind ?_
  refine (gives_readSigned order (by omega)).bind ?_
  refine (gives_readSigned order (by omega)).bind ?_
  refine (gives_readByte (by omega)).bind ?_
  refine (gives_readByte (by omega)).bind ?_
  refine (gives_readByte (by omega)).bind ?_
  refine (gives_readByte (by omega)).bind ?_
  refine (gives_readSigned order (by omega)).bind ?_
  refine (gives_readWord order (by omega)).bind ?_
  refine (gives_readWord order (by omega)).bind ?_
  exact gives_pure _

theorem gives_watch (buffer : List UInt8) : (watch buffer).Gives (decode buffer) := by
  rw [watch, decode]
  split
  next => exact gives_throw _
  next notShort =>
    have enough : length ≤ buffer.length := Nat.not_lt.mp notShort
    refine (gives_readByte (Nat.lt_of_lt_of_le (by decide) enough)).bind ?_
    split
    next => exact gives_throw _
    next =>
      have givesOrder : Gives (watchOrder buffer [.bigEndian, .littleEndian] : Watched RecordError _)
          (.ok (detectOrder? buffer)) := gives_watchOrder enough _
      refine givesOrder.bind ?_
      cases detectOrder? buffer with
      | none => exact gives_throw _
      | some order => exact gives_watchRead order enough

end Header

/-! ## Blockettes -/

/-- Read a calibration, each field at its address. -/
def Calibration.watch (order : ByteOrder) (bytes : List UInt8) : Watched ε Calibration := do
  let start ← RecordTime.watch order bytes 4
  let flags ← readByte bytes 15
  let duration ← readWord order bytes 16 4
  let peakAmplitude ← readWord order bytes 20 4
  let inputChannel ← readText bytes 24 3
  let referenceAmplitude ← readWord order bytes 28 4
  let coupling ← readText bytes 32 12
  let rolloff ← readText bytes 44 12
  let noise ← readText bytes 56 8
  return { start, flags := flags.toNat, duration,
           peakAmplitude := Float32.ofBits (UInt32.ofNat peakAmplitude), inputChannel,
           referenceAmplitude, coupling, rolloff, noise }

theorem Calibration.gives_watch (order : ByteOrder) (enough : 64 ≤ buffer.length) :
    Gives (watch order buffer : Watched ε _) (.ok (read order buffer)) := by
  refine (RecordTime.gives_watch order (by omega)).bind ?_
  refine (gives_readByte (by omega)).bind ?_
  refine (gives_readWord order (by omega)).bind ?_
  refine (gives_readWord order (by omega)).bind ?_
  refine (gives_readText (by omega)).bind ?_
  refine (gives_readWord order (by omega)).bind ?_
  refine (gives_readText (by omega)).bind ?_
  refine (gives_readText (by omega)).bind ?_
  refine (gives_readText (by omega)).bind ?_
  exact gives_pure _

namespace Blockette

/-- Read a blockette of a kind, each field at its address. -/
def watchRead (order : ByteOrder) (bytes : List UInt8) (kind : Nat) : Watched ε Blockette :=
  match kind with
  | 1000 => do
      let encoding ← readByte bytes 4
      let byteOrder ← readByte bytes 5
      let exponent ← readByte bytes 6
      return .dataFormat
        { encoding := encoding.toNat
          byteOrder := if byteOrder = 0 then .littleEndian else .bigEndian
          exponent := exponent.toNat }
  | 1001 => do
      let quality ← readByte bytes 4
      let microseconds ← readSigned order bytes 5 1
      let frameCount ← readByte bytes 7
      return .clockQuality
        { quality := quality.toNat, microseconds, frameCount := frameCount.toNat }
  | 320 => do
      let calibration ← Calibration.watch order bytes
      return .calibration calibration
  | kind => return .other kind

/-- Decode the blockette at the start of some bytes, reading each field at its address. -/
def watch (order : ByteOrder) (bytes : List UInt8) : Watched ε (Option Blockette) :=
  if bytes.length < 2 then return none
  else do
    let kind ← readWord order bytes 0 2
    if bytes.length < leastLength kind then return none
    else do
      let blockette ← watchRead order bytes kind
      return some blockette

/-- Read the offset of the blockette after the one at an offset. -/
def watchNext (order : ByteOrder) (buffer : List UInt8) (offset : Nat) : Watched ε Nat :=
  if offset + 4 ≤ buffer.length then readWord order buffer (offset + 2) 2 else return 0

/-- Follow a chain of blockettes, reading each of them and each offset at its address. -/
def watchChain (order : ByteOrder) (buffer : List UInt8) :
    (limit offset : Nat) → Watched ε (List Blockette)
  | 0, _ => return []
  | limit + 1, offset =>
      if offset < Header.length then return []
      else do
        match ← watch order (buffer.drop offset) with
        | none => return []
        | some blockette =>
            let next ← watchNext order buffer offset
            if next ≤ offset then return [blockette]
            else
              let later ← watchChain order buffer limit next
              return blockette :: later

theorem gives_watchRead (order : ByteOrder) {kind : Nat}
    (enough : leastLength kind ≤ buffer.length) :
    Gives (watchRead order buffer kind : Watched ε _) (.ok (read order buffer kind)) := by
  unfold watchRead
  split
  case h_1 =>
    change 7 ≤ buffer.length at enough
    refine (gives_readByte (by omega)).bind ?_
    refine (gives_readByte (by omega)).bind ?_
    refine (gives_readByte (by omega)).bind ?_
    exact gives_pure _
  case h_2 =>
    change 8 ≤ buffer.length at enough
    refine (gives_readByte (by omega)).bind ?_
    refine (gives_readSigned order (by omega)).bind ?_
    refine (gives_readByte (by omega)).bind ?_
    exact gives_pure _
  case h_3 => exact (Calibration.gives_watch order enough).bind (gives_pure _)
  case h_4 kind notFormat notClock notCalibration =>
    rw [read]
    exacts [gives_pure _, notFormat, notClock, notCalibration]

theorem gives_watch (order : ByteOrder) (bytes : List UInt8) :
    Gives (watch order bytes : Watched ε _) (.ok (decode? order bytes)) := by
  simp only [watch, decode?]
  by_cases isShort : bytes.length < 2
  · rw [if_pos isShort, if_neg (fun both => Nat.not_le.mpr isShort both.1)]
    exact gives_pure none
  · rw [if_neg isShort]
    refine (gives_readWord order (Nat.not_lt.mp isShort)).bind ?_
    by_cases isCutOff : bytes.length < leastLength (wordAt order bytes 0 2)
    · rw [if_pos isCutOff, if_neg (fun both => Nat.not_le.mpr isCutOff both.2)]
      exact gives_pure none
    · rw [if_neg isCutOff, if_pos ⟨Nat.not_lt.mp isShort, Nat.not_lt.mp isCutOff⟩]
      exact (gives_watchRead order (Nat.not_lt.mp isCutOff)).bind (gives_pure _)

theorem gives_watchNext (order : ByteOrder) (buffer : List UInt8) (offset : Nat) :
    Gives (watchNext order buffer offset : Watched ε _) (.ok (nextOffset order buffer offset)) := by
  rw [watchNext, nextOffset]
  split
  next inside => exact gives_readWord order inside
  next => exact gives_pure 0

theorem gives_watchChain (order : ByteOrder) (buffer : List UInt8) (limit offset : Nat) :
    Gives (watchChain order buffer limit offset : Watched ε _)
      (.ok (chain order buffer limit offset)) := by
  induction limit generalizing offset with
  | zero => exact gives_pure []
  | succ limit ih =>
      rw [watchChain, chain]
      split
      next => exact gives_pure []
      next =>
        refine (gives_watch order (buffer.drop offset)).bind ?_
        cases decode? order (buffer.drop offset) with
        | none => exact gives_pure []
        | some blockette =>
            refine (gives_watchNext order buffer offset).bind ?_
            dsimp only
            split
            next => exact gives_pure [blockette]
            next => exact (ih _).bind (gives_pure _)

end Blockette

/-! ## Records -/

namespace Record

/-- Decode a record up to its samples, reading each field at its address. -/
def watch (bytes : List UInt8) : Watched RecordError Record := do
  let header ← Header.watch bytes
  match header.start.micros? with
  | none => throw .invalidStart
  | some start => do
      let blockettes ← Blockette.watchChain header.byteOrder bytes Header.blocketteLimit
        header.firstBlockette
      return ⟨header, blockettes, start, bytes⟩

theorem gives_watch (bytes : List UInt8) : (watch bytes).Gives (decode bytes) := by
  apply (Header.gives_watch bytes).andThen
  intro header
  cases header.start.micros? with
  | none => exact gives_throw _
  | some start => exact (Blockette.gives_watchChain _ _ _ _).bind (gives_pure _)

/-- Decode the samples, reading each word of the payload at its address. -/
def watchSamples (record : Record) : Watched RecordError (List Int32) :=
  match record.dataFormat? with
  | none => throw .noDataBlockette
  | some format => do
      let offset := record.header.dataOffset
      if Header.length ≤ offset ∧ offset ≤ record.bytes.length then
        let decoded ← (watchPayload format.encoding format.byteOrder (record.bytes.drop offset)
          record.header.sampleCount).attempt
        liftExcept (decoded.mapError RecordError.payload)
      else throw .payloadOutside

theorem gives_watchSamples (record : Record) : record.watchSamples.Gives record.samples := by
  rw [watchSamples, samples]
  cases record.dataFormat? with
  | none => exact gives_throw _
  | some format =>
      dsimp only
      split
      next => exact (gives_watchPayload _ _ _ _).attempt.bind (gives_liftExcept _)
      next => exact gives_throw _

end Record

namespace Verdict

/-- Judge the bytes of a record, reading each field at its address. -/
def watch (selection : Selection) (bytes : List UInt8) : Watched ε Verdict := do
  match ← (Record.watch bytes).attempt with
  | .error error => return .corrupt error
  | .ok record =>
      if record.isHeartbeat then return .heartbeat
      else
        match selection.rejectedBy record.channel.normal with
        | some code => return .filtered code
        | none =>
            match SampleRate.interval? record.header.sampleRate with
            | none => return .illegalRate record.header.sampleRate
            | some interval => return .kept record (TrackKey.ofRecord record.channel interval)

theorem gives_watch (selection : Selection) (bytes : List UInt8) :
    Gives (watch selection bytes : Watched ε _) (.ok (ofBytes selection bytes)) := by
  refine (Record.gives_watch bytes).attempt.bind ?_
  rw [ofBytes]
  cases Record.decode bytes with
  | error error => exact gives_pure _
  | ok record =>
      dsimp only
      split
      next => exact gives_pure _
      next =>
        cases selection.rejectedBy record.channel.normal with
        | some code => exact gives_pure _
        | none =>
            dsimp only
            cases SampleRate.interval? record.header.sampleRate with
            | none => exact gives_pure _
            | some interval => exact gives_pure _

end Verdict

end Waveform
