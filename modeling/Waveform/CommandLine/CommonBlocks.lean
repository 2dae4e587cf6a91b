import Waveform.CommandLine.Failure
import Waveform.Text.Json

/-!
# Common blocks of channels

The windows of time that all of some channels of a split cover, as a JSON document or as text for
readers. Each channel must have one track.
-/

namespace Waveform.CommandLine

/-- The spans of the segments of a channel. -/
def spansOf (split : Split) (channel : ChannelId) : Except Failure (List Span) :=
  match split.tracks.filter fun track => track.1.isOf channel with
  | [] => .error (.noData channel)
  | [(_, segments)] => .ok (segments.map Trace.span)
  | (first, _) :: (second, _) :: _ => .error (.severalRates channel first second)

/-- The windows that all of some channels cover. -/
def commonBlocks (split : Split) (channels : List ChannelId) : Except Failure (List Span) := do
  let spans ← channels.mapM (spansOf split)
  match (commonWindows spans .never).windows with
  | .ok windows => return windows
  | .error .cancelled => .error .locatingCancelled
  | .error (.mixedIntervals expected actual) => .error (.locating expected actual)

/-- The JSON value of a window. -/
def blockJson (block : Span) : Json :=
  .record [("start", .text (Time.text block.start)), ("end", .text (Time.text block.stop)),
    ("samples", .integer block.sampleCount)]

/-- The line of a window. -/
def blockLine (block : Span) : String :=
  Time.text block.start ++ "  " ++ Time.text block.stop ++ "  " ++ toString block.sampleCount

end Waveform.CommandLine
