import Waveform.Channel.ChannelId
import Waveform.Channel.Glob

/-!
# Selecting channels

A selection keeps the channels whose codes match its globs; a code without a glob is not looked at.
-/

namespace Waveform

/-- The codes of a channel that a selection can look at, in the order in which it does. -/
inductive ChannelCode where
  | network
  | station
  | location
  | channel
deriving DecidableEq

namespace ChannelCode

/-- All codes, in order. -/
def all : List ChannelCode := [.network, .station, .location, .channel]

/-- The name of a code. -/
def name : ChannelCode → String
  | .network => "network"
  | .station => "station"
  | .location => "location"
  | .channel => "channel"

/-- The code of a channel. -/
def get (code : ChannelCode) (id : ChannelId) : String :=
  match code with
  | .network => id.network
  | .station => id.station
  | .location => id.location
  | .channel => id.channel

end ChannelCode

/-- A glob that cannot be read. -/
structure MalformedGlob where
  code : ChannelCode
  text : String
deriving DecidableEq

/-- The complaint about a glob. -/
def MalformedGlob.message (error : MalformedGlob) : String :=
  "invalid " ++ error.code.name ++ " filter " ++ Text.quoted error.text

/-- At most one glob for each code. -/
structure Selection where
  network : Option Glob
  station : Option Glob
  location : Option Glob
  channel : Option Glob
deriving DecidableEq

namespace Selection

/-- The selection that keeps every channel. -/
def everything : Selection := ⟨none, none, none, none⟩

/-- The glob for a code. -/
def get (selection : Selection) (code : ChannelCode) : Option Glob :=
  match code with
  | .network => selection.network
  | .station => selection.station
  | .location => selection.location
  | .channel => selection.channel

/-- The selection with another glob for one code. -/
def set (selection : Selection) (code : ChannelCode) (glob : Glob) : Selection :=
  match code with
  | .network => { selection with network := some glob }
  | .station => { selection with station := some glob }
  | .location => { selection with location := some glob }
  | .channel => { selection with channel := some glob }

/-- Set the glob for one code from its text; no text leaves the selection as it is. -/
def setText (selection : Selection) (code : ChannelCode) (text : Option String) :
    Except MalformedGlob Selection :=
  match text with
  | none => .ok selection
  | some text =>
      match Glob.parse? text with
      | some glob => .ok (selection.set code glob)
      | none => .error ⟨code, text⟩

/-- Set globs from their texts in turn; a later one for the same code replaces an earlier one. -/
def setTexts (selection : Selection) (settings : List (ChannelCode × Option String)) :
    Except MalformedGlob Selection :=
  settings.foldlM (fun current setting => current.setText setting.1 setting.2) selection

/-- Whether the glob for a code, if there is one, matches the channel's code. -/
def accepts (selection : Selection) (id : ChannelId) (code : ChannelCode) : Bool :=
  match selection.get code with
  | none => true
  | some glob => glob.matchesText (code.get id)

/-- The first code that keeps a channel out. -/
def rejectedBy (selection : Selection) (id : ChannelId) : Option ChannelCode :=
  ChannelCode.all.find? fun code => !selection.accepts id code

/-- Whether a channel is selected. -/
def selects (selection : Selection) (id : ChannelId) : Bool := (selection.rejectedBy id).isNone

end Selection

end Waveform
