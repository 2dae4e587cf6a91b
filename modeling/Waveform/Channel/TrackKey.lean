import Waveform.Channel.ChannelId
import Waveform.SampleRate
import Waveform.Decimal.FixedPlaces

/-!
# Track keys

Samples of one channel taken at one interval belong to one track. Keys are ordered by their codes
and then by the interval.
-/

namespace Waveform

/-- What tells tracks apart: the channel and the interval between samples in microseconds. -/
structure TrackKey where
  channel : ChannelId
  interval : Int
deriving DecidableEq

namespace TrackKey

/-- The key of a channel as records name it. -/
def ofRecord (channel : ChannelId) (interval : Int) : TrackKey := ⟨channel.normal, interval⟩

/-- The rate of a track: the legal one of its interval, or else the reciprocal. -/
def sampleRate (key : TrackKey) : Float :=
  (SampleRate.ofInterval? key.interval).getD (1e6 / Float.ofInt key.interval)

/-- Whether a track belongs to a channel as records name it. -/
def isOf (key : TrackKey) (channel : ChannelId) : Bool := key.channel = channel.normal

/-- The text of a key: its channel and its rate to one decimal place. -/
def text (key : TrackKey) : String :=
  key.channel.text ++ " (" ++ Decimal.fixedText key.sampleRate 1 ++ " Hz)"

/-- Whether a key stands before another one or equals it. -/
def le (first second : TrackKey) : Bool :=
  first.channel.codes < second.channel.codes ||
    (first.channel.codes = second.channel.codes && first.interval ≤ second.interval)

end TrackKey

/-- Put an item in the place of the one of the same key, or after all others. -/
def putByKey {α : Type} (keyOf : α → TrackKey) (item : α) : List α → List α
  | [] => [item]
  | other :: rest =>
      if keyOf other = keyOf item then item :: rest else other :: putByKey keyOf item rest

end Waveform
