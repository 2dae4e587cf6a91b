import Waveform.Channel.Selection

/-!
# Requests on the command line

The words of a command line are read into a request. The first word names the command. Settings have
a letter and a name: `-n IU`, `-nIU`, `-n=IU`, `--network IU` and `--network=IU` say the same. All
other words are inputs, and after `--` every word is one. A setting is given once at most, except
that a key is added each time.
-/

namespace Waveform.CommandLine

/-- How a result is written. -/
inductive ReportFormat where
  | json
  | text
deriving DecidableEq

namespace ReportFormat

/-- The word for a format. -/
def name : ReportFormat → String
  | .json => "json"
  | .text => "text"

/-- The format of a word. -/
def ofName? (word : String) : Option ReportFormat :=
  [ReportFormat.json, .text].find? fun format => format.name = word

end ReportFormat

/-- What can be set by a word of the command line. -/
inductive Setting where
  | glob (code : ChannelCode)
  | readers
  | format
  | key
deriving DecidableEq

namespace Setting

/-- The name of a setting. -/
def name : Setting → String
  | .glob code => code.name
  | .readers => "readers"
  | .format => "format"
  | .key => "key"

/-- The letter of a setting is the first one of its name. -/
def letter? (setting : Setting) : Option Char := setting.name.toList.head?

end Setting

/-- The commands. -/
inductive CommandName where
  | split
  | blocks
deriving DecidableEq

namespace CommandName

/-- All commands. -/
def all : List CommandName := [.split, .blocks]

/-- The word for a command. -/
def name : CommandName → String
  | .split => "split"
  | .blocks => "blocks"

/-- The command of a word. -/
def ofName? (word : String) : Option CommandName := all.find? fun command => command.name = word

/-- What can be set for a command. -/
def settings : CommandName → List Setting
  | .split => ChannelCode.all.map .glob ++ [.readers, .format]
  | .blocks => [.key, .format]

end CommandName

/-- What is asked for. -/
inductive Request where
  | split (globs : List (ChannelCode × Option String)) (readers : Nat) (format : ReportFormat)
      (inputs : List String)
  | blocks (keys : List ChannelId) (format : ReportFormat) (inputs : List String)
  /-- To be told how the tool is used. -/
  | help
  | version
deriving DecidableEq

/-- The names of the input files of a request. -/
def Request.inputs : Request → List String
  | .split _ _ _ inputs => inputs
  | .blocks _ _ inputs => inputs
  | .help => []
  | .version => []

/-- The number that decimal digits stand for, perhaps after a plus sign, if sixty-four bits hold
it. -/
def wholeNumber? (word : String) : Option Nat :=
  let digits :=
    match word.toList with
    | '+' :: rest => rest
    | all => all
  let value := digits.foldl (fun total digit => 10 * total + (digit.toNat - 48)) 0
  if !digits.isEmpty && digits.all Char.isDigit && value < UInt64.size then some value else none

/-- What the words after the command say. -/
structure Arguments where
  globs : List (ChannelCode × String)
  readers : Option Nat
  format : Option ReportFormat
  keys : List ChannelId
  inputs : List String
deriving DecidableEq

namespace Arguments

/-- What no words say. -/
def empty : Arguments := ⟨[], none, none, [], []⟩

/-- Take in the value of a setting, unless it has no meaning or the setting has one already. -/
def set (arguments : Arguments) (setting : Setting) (value : String) : Option Arguments :=
  match setting with
  | .glob code =>
      if (arguments.globs.lookup code).isSome then none
      else some { arguments with globs := arguments.globs ++ [(code, value)] }
  | .readers =>
      if arguments.readers.isSome then none
      else (wholeNumber? value).map fun readers => { arguments with readers := some readers }
  | .format =>
      if arguments.format.isSome then none
      else
        (ReportFormat.ofName? value).map fun format => { arguments with format := some format }
  | .key =>
      (ChannelId.parse? value).map fun key => { arguments with keys := arguments.keys ++ [key] }

/-- Take in more inputs, unless one of them has no name. -/
def addInputs (arguments : Arguments) (inputs : List String) : Option Arguments :=
  if "" ∈ inputs then none else some { arguments with inputs := arguments.inputs ++ inputs }

/-- The request of a command with its arguments, if none is wanting. -/
def request? (arguments : Arguments) (command : CommandName) : Option Request :=
  let format := arguments.format.getD .text
  if arguments.inputs = [] then none
  else
    match command with
    | .split =>
        let globs := ChannelCode.all.map fun code => (code, arguments.globs.lookup code)
        some (.split globs (arguments.readers.getD 1) format arguments.inputs)
    | .blocks =>
        if arguments.keys = [] then none
        else some (.blocks arguments.keys format arguments.inputs)

end Arguments

/-- What one word after the command is. -/
inductive Word where
  | input (word : String)
  /-- A setting, with its value if that is in the same word. -/
  | setting (setting : Setting) (value : Option String)
  /-- The word after which every one is an input. -/
  | onlyInputs
  | help
  | unknown
deriving DecidableEq

namespace Word

/-- A word after two hyphens: a name, and perhaps a value after an equals sign. -/
def ofLong (settings : List Setting) (word : List Char) : Word :=
  let name := String.ofList (word.takeWhile (· ≠ '='))
  let value :=
    match word.dropWhile (· ≠ '=') with
    | [] => none
    | _ :: value => some (String.ofList value)
  match settings.find? fun known => known.name = name with
  | some known => .setting known value
  | none => if name = "help" ∧ value = none then .help else .unknown

/-- A word after one hyphen: a letter, and perhaps a value, which may stand after an equals sign. -/
def ofShort (settings : List Setting) (letter : Char) (rest : List Char) : Word :=
  let value :=
    match rest with
    | [] => none
    | '=' :: value => some (String.ofList value)
    | value => some (String.ofList value)
  match settings.find? fun known => known.letter? = some letter with
  | some known => .setting known value
  | none => if letter = 'h' then .help else .unknown

/-- Read a word. A hyphen alone is an input. -/
def read (settings : List Setting) (word : String) : Word :=
  match word.toList with
  | ['-', '-'] => .onlyInputs
  | '-' :: '-' :: rest => ofLong settings rest
  | '-' :: letter :: rest => ofShort settings letter rest
  | _ => .input word

end Word

/-- Why the words after the command are read no further. -/
inductive Halt where
  | help
  | misuse
deriving DecidableEq

namespace Arguments

/-- What is taken in, or a halt if nothing is. -/
def orHalt : Option Arguments → Except Halt Arguments
  | some arguments => .ok arguments
  | none => .error .misuse

/-- Read words one after the other, up to the first that asks for help or cannot be taken in. The
value of a setting is in its word or is the next one. -/
def read (settings : List Setting) (arguments : Arguments) : List String → Except Halt Arguments
  | [] => .ok arguments
  | word :: rest =>
      match Word.read settings word with
      | .input input => do (← orHalt (arguments.addInputs [input])).read settings rest
      | .onlyInputs => orHalt (arguments.addInputs rest)
      | .help => .error .help
      | .unknown => .error .misuse
      | .setting setting (some value) => do
          (← orHalt (arguments.set setting value)).read settings rest
      | .setting setting none =>
          match rest with
          | [] => .error .misuse
          | next :: rest =>
              match Word.read settings next with
              | .input value => do (← orHalt (arguments.set setting value)).read settings rest
              | _ => .error .misuse

end Arguments

namespace Request

/-- The request of a command and the words after it. -/
def ofCommand? (command : CommandName) (words : List String) : Option Request :=
  match Arguments.empty.read command.settings words with
  | .ok arguments => arguments.request? command
  | .error .help => some .help
  | .error .misuse => none

/-- The request for help with what some words name. -/
def ofHelp? : List String → Option Request
  | [] => some .help
  | [word] => if word = "help" ∨ (CommandName.ofName? word).isSome then some .help else none
  | _ => none

/-- The request that words make, if they make one. -/
def ofWords? : List String → Option Request
  | [] => none
  | word :: rest =>
      match CommandName.ofName? word with
      | some command => ofCommand? command rest
      | none =>
          if word = "help" then ofHelp? rest
          else
            match word.toList with
            | '-' :: 'h' :: _ => some .help
            | '-' :: 'V' :: _ => some .version
            | _ =>
                if word = "--help" then some .help
                else if word = "--version" then some .version
                else none

end Request

end Waveform.CommandLine
