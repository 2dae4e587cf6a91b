import Waveform.Channel.Selection
import Waveform.Channel.TrackKey
import Waveform.Record.Record

/-!
# What becomes of a record

A record is discarded because its header cannot be decoded, because it has no samples, because its
channel is not selected or because its rate is not legal, whichever of these comes first; any other
record is kept and belongs to the track of its channel and interval.
-/

namespace Waveform

/-- What becomes of a record. -/
inductive Verdict where
  | corrupt (error : RecordError)
  | heartbeat
  | filtered (code : ChannelCode)
  | illegalRate (rate : Float)
  | kept (record : Record) (key : TrackKey)

namespace Verdict

/-- Judge the bytes of a record. -/
def ofBytes (selection : Selection) (bytes : List UInt8) : Verdict :=
  match Record.decode bytes with
  | .error error => .corrupt error
  | .ok record =>
      if record.isHeartbeat then .heartbeat
      else
        match selection.rejectedBy record.channel.normal with
        | some code => .filtered code
        | none =>
            match SampleRate.interval? record.header.sampleRate with
            | none => .illegalRate record.header.sampleRate
            | some interval => .kept record (TrackKey.ofRecord record.channel interval)

/-- The interval of a record that is kept is legal. -/
theorem interval?_of_kept {selection : Selection} {bytes : List UInt8} {record : Record}
    {key : TrackKey} (isKept : ofBytes selection bytes = .kept record key) :
    SampleRate.interval? record.header.sampleRate = some key.interval := by
  unfold ofBytes at isKept
  split at isKept
  · cases isKept
  · split at isKept
    · cases isKept
    · split at isKept
      · cases isKept
      · split at isKept
        · cases isKept
        · rename_i isLegal
          cases isKept
          exact isLegal

end Verdict

end Waveform
