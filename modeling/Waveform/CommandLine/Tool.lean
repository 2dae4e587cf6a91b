import Waveform.CommandLine.CommonBlocks
import Waveform.CommandLine.Request
import Waveform.CommandLine.SplitReport

/-!
# The command line tool

From what there is to be opened and the words of the command line to what is written and the code
with which the tool ends: zero if the request was fulfilled, one if it failed, two if the words make
no request. What the parser of the command line writes of its own, which is how the tool is used and
what is wrong with the words, is left out.
-/

namespace Waveform.CommandLine

/-- What the tool does in the end. -/
structure Outcome where
  code : Nat
  output : String
  complaint : String
deriving DecidableEq

/-- Split the inputs at some paths. -/
def splitInputs (config : SessionConfig) (places : Places) (paths : List String) :
    Except Failure Split :=
  match places.openAll paths with
  | .error fault => .error (.opening fault)
  | .ok opened =>
      match (config.splitPlaces opened false).result with
      | .ok (some split) => .ok split
      | .ok none => .error .splitCancelled
      | .error error => .error (.splitting error)

/-- The first of some paths that leads nowhere. -/
def missingInput? (places : Places) (paths : List String) : Option String :=
  paths.find? fun path => !(places path).isOk

/-- Fulfil a request to split. -/
def split (places : Places) (globs : List (ChannelCode × Option String)) (readers : Nat)
    (format : ReportFormat) (paths : List String) : Except Failure String := do
  if let some path := missingInput? places paths then .error (.missingInput path)
  let selection ← (Selection.everything.setTexts globs).mapError .filter
  let config := { SessionConfig.standard with selection, readers }
  let report := SplitReport.ofSplit paths (← splitInputs config places paths)
  match format with
  | .json => return report.json.pretty
  | .text => return report.text

/-- Fulfil a request for the common blocks of channels. -/
def blocks (places : Places) (channels : List ChannelId) (format : ReportFormat)
    (paths : List String) : Except Failure String := do
  let found ← commonBlocks (← splitInputs SessionConfig.standard places paths) channels
  match format with
  | .json => return (Json.list (found.map blockJson)).pretty
  | .text => return joinLines (found.map blockLine)

/-- Fulfil a request. The texts about the tool itself are the command line parser's. -/
def fulfil (places : Places) : Request → Except Failure String
  | .split globs readers format paths => split places globs readers format paths
  | .blocks keys format paths => blocks places keys format paths
  | .help => .ok ""
  | .version => .ok ""

/-- What the tool does about the words of the command line, given what there is to be opened. -/
def run (places : Places) (words : List String) : Outcome :=
  match Request.ofWords? words with
  | none => ⟨2, "", ""⟩
  | some request =>
      match fulfil places request with
      | .ok output => ⟨0, output, ""⟩
      | .error failure => ⟨1, "", failure.text⟩

end Waveform.CommandLine
