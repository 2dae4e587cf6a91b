import Waveform.Coverage.Search
import Waveform.Session

/-!
# Failures on the command line

Why a request that was understood is not fulfilled. A failure is told in a line; where another error
is the cause, that one stands below.
-/

namespace Waveform.CommandLine

/-- Why a request is not fulfilled. -/
inductive Failure where
  /-- The path of an input leads nowhere. -/
  | missingInput (path : String)
  | filter (error : MalformedGlob)
  | opening (fault : OpenFault)
  | splitting (error : SplitError)
  | splitCancelled
  /-- No track belongs to a channel. -/
  | noData (channel : ChannelId)
  /-- Several tracks belong to a channel, these two and perhaps more. -/
  | severalRates (channel : ChannelId) (first second : TrackKey)
  | locating (expected actual : Int)
  | locatingCancelled
deriving DecidableEq

namespace Failure

/-- The line that tells a failure. -/
def summary : Failure → String
  | .missingInput path => Text.quoted path ++ " does not exist"
  | .filter _ => "invalid filter"
  | .opening _ => "opening inputs"
  | .splitting _ => "splitting"
  | .splitCancelled => "split was cancelled"
  | .noData channel => "no data for " ++ channel.text
  | .severalRates channel first second =>
      channel.text ++ " has more than one sample rate: " ++ first.text ++ " and " ++ second.text
  | .locating _ _ => "locating common blocks"
  | .locatingCancelled => "locating was cancelled"

/-- The complaint about the cause of a failure. -/
def cause? : Failure → Option String
  | .filter error => some error.message
  | .opening fault => some fault.message
  | .splitting error => some error.message
  | .locating expected actual => some (mixedIntervalsMessage expected actual)
  | _ => none

/-- The text of a failure. -/
def text (failure : Failure) : String :=
  match failure.cause? with
  | none => "Error: " ++ failure.summary ++ "\n"
  | some cause => "Error: " ++ failure.summary ++ "\n\nCaused by:\n    " ++ cause ++ "\n"

end Failure

end Waveform.CommandLine
