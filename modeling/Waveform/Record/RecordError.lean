import Waveform.Payload.PayloadError
import Waveform.Digest.Md5

/-!
# Faults of records

Why bytes are no record, or why a record's samples cannot be decoded.
-/

namespace Waveform

/-- Why a record cannot be decoded. -/
inductive RecordError where
  /-- There are fewer bytes than the fixed header has. -/
  | tooShort (actual minimum : Nat)
  /-- The quality indicator is none of the known ones. -/
  | indicator (byte : UInt8)
  /-- The start time is not sensible in either byte order. -/
  | implausibleStart
  /-- The start time is not a time. -/
  | invalidStart
  /-- The samples start outside of the record or inside its fixed header. -/
  | payloadOutside
  /-- There is no blockette that tells how the samples are stored. -/
  | noDataBlockette
  /-- The length of the record is out of range. -/
  | lengthExponent (exponent : Nat)
  /-- The payload cannot be decoded. -/
  | payload (error : PayloadError)
deriving DecidableEq

/-- The complaint about a record. -/
def RecordError.message : RecordError → String
  | .tooShort _ _ => "Not enough bytes"
  | .indicator byte => "bad quality indicator 0x" ++ Md5.hexText [byte]
  | .implausibleStart => "corrupt header: start time is not sensible in either word order"
  | .invalidStart => "corrupt header: invalid start time"
  | .payloadOutside => "corrupt header: data offset outside of record"
  | .noDataBlockette => "record has no blockette 1000"
  | .lengthExponent exponent => s!"invalid record length exponent {exponent}"
  | .payload error => error.message

end Waveform
