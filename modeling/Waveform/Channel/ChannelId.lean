import Waveform.Text.Blank
import Waveform.Text.Pattern
import Waveform.Text.Quoted

/-!
# Channel identifiers

A channel of a seismic network is named by four codes: network, station, location and channel. Its
text is `NET_STA LOC-CHA`; reading accepts codes of capital letters and digits only.
-/

namespace Waveform

/-- The four codes that name a channel. -/
structure ChannelId where
  network : String
  station : String
  location : String
  channel : String
deriving DecidableEq

namespace ChannelId

/-- The location code of channels whose records leave it blank. -/
def blankLocation : String := "--"

/-- The identifier with a blank location replaced by its code. -/
def normal (id : ChannelId) : ChannelId :=
  if Text.isAllBlank id.location then { id with location := blankLocation } else id

/-- The codes in order of significance. -/
def codes (id : ChannelId) : List String := [id.network, id.station, id.location, id.channel]

/-- The text of an identifier. -/
def text (id : ChannelId) : String :=
  id.network ++ "_" ++ id.station ++ " " ++ id.location ++ "-" ++ id.channel

/-- A run of capital letters and digits. -/
def codeRun (least most : Nat) : PatternRun := ⟨.within [('A', 'Z'), ('0', '9')], least, some most⟩

/-- A character that parts codes. -/
def separator (character : Char) : PatternItem := .plain (.one (.only character))

/-- The pattern of an identifier's text, with a group for every code. -/
def pattern : Pattern where
  items :=
    [.group [[codeRun 1 2]], separator '_', .group [[codeRun 1 5]], separator ' ',
     .group [[codeRun 2 2], [.one (.only '-'), .one (.only '-')]], separator '-',
     .group [[codeRun 3 3]]]

example :
    pattern.text =
      "^([A-Z0-9]\x7b1,2\x7d)_([A-Z0-9]\x7b1,5\x7d) ([A-Z0-9]\x7b2\x7d|--)-([A-Z0-9]\x7b3\x7d)$" := by
  decide

/-- Read an identifier's text. -/
def parse? (text : String) : Option ChannelId :=
  match pattern.captures? text with
  | some [network, station, location, channel] => some ⟨network, station, location, channel⟩
  | _ => none

/-- The complaint about a text that is no identifier. -/
def malformedMessage (text : String) : String :=
  Text.quoted text ++ " is not of the form NET_STA LOC-CHA"

end ChannelId

end Waveform
