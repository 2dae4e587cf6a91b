/-!
# Patterns

Regular expressions of the simple kind that texts are read with. A pattern goes from the start of a
text to its end, item by item. An item is a run of characters of one class, or a group of
alternatives that captures its piece of the text. Where a text can be cut into pieces in several
ways, an earlier alternative is preferred to a later one, and a longer run to a shorter one. All
ways are followed at once, one character after the other, and of those that lead to the same place
only the first.
-/

namespace Waveform

/-- A class of characters. -/
inductive CharacterClass where
  | only (character : Char)
  /-- Any character except a line feed. -/
  | any
  /-- The characters between two others, for any of some pairs. -/
  | within (ranges : List (Char × Char))
deriving DecidableEq

namespace CharacterClass

/-- Whether a character is of a class. -/
def accepts (kind : CharacterClass) (character : Char) : Bool :=
  match kind with
  | only expected => character = expected
  | any => character != '\n'
  | within ranges => ranges.any fun range => range.1 ≤ character && character ≤ range.2

/-- How a class is written. A point that stands for itself is marked. -/
def text : CharacterClass → String
  | only character => if character = '.' then "\\." else String.singleton character
  | any => "."
  | within ranges =>
      let parts := ranges.map fun range => String.ofList [range.1, '-', range.2]
      "[" ++ "".intercalate parts ++ "]"

end CharacterClass

/-- A run of characters of a class, with the bounds of its length. -/
structure PatternRun where
  kind : CharacterClass
  least : Nat
  most : Option Nat
deriving DecidableEq

namespace PatternRun

/-- One character of a class. -/
def one (kind : CharacterClass) : PatternRun := ⟨kind, 1, some 1⟩

/-- What is left of a run behind one of its characters. -/
def next (run : PatternRun) : PatternRun :=
  { run with least := run.least - 1, most := run.most.map (· - 1) }

/-- Whether a character can belong to a run. -/
def takes (run : PatternRun) (character : Char) : Bool :=
  run.most ≠ some 0 && run.kind.accepts character

/-- Whether runs in a row can all be empty. -/
def areOptional (runs : List PatternRun) : Bool := runs.all fun run => run.least = 0

/-- What can be left of runs in a row behind a character. -/
def after (character : Char) : List PatternRun → List (List PatternRun)
  | [] => []
  | run :: later =>
      (if run.takes character then [run.next :: later] else []) ++
        if run.least = 0 then after character later else []

/-- How the bounds of a length are written. -/
def boundsText (least : Nat) : Option Nat → String
  | none => if least = 0 then "*" else s!"\x7b{least},\x7d"
  | some most =>
      if least = 1 ∧ most = 1 then ""
      else if least = most then s!"\x7b{most}\x7d"
      else s!"\x7b{least},{most}\x7d"

/-- How a run is written. -/
def text (run : PatternRun) : String := run.kind.text ++ boundsText run.least run.most

end PatternRun

/-- An item of a pattern. -/
inductive PatternItem where
  | plain (run : PatternRun)
  /-- Several alternatives, each of runs in a row. The piece is captured. -/
  | group (alternatives : List (List PatternRun))
deriving DecidableEq

namespace PatternItem

/-- The alternatives, of which a run has only one. -/
def alternatives : PatternItem → List (List PatternRun)
  | plain run => [[run]]
  | group alternatives => alternatives

/-- Whether the piece of an item is captured. -/
def isGroup : PatternItem → Bool
  | plain _ => false
  | group _ => true

/-- How an item is written. -/
def text : PatternItem → String
  | plain run => run.text
  | group alternatives =>
      "(" ++ "|".intercalate (alternatives.map fun runs =>
        "".intercalate (runs.map PatternRun.text)) ++ ")"

end PatternItem

/-- One way to follow a pattern through a text. -/
structure PatternThread where
  /-- The pieces of the items that are done. -/
  done : List (List Char)
  /-- The piece so far of the item that is not. -/
  piece : List Char
  /-- What is left of this item. -/
  runs : List PatternRun
  later : List PatternItem

namespace PatternThread

/-- Where a character leads from within an item and, if this can be done, from the start of the next
one. -/
def follow (character : Char) (done : List (List Char)) (piece : List Char)
    (runs : List PatternRun) : List PatternItem → List PatternThread
  | [] => (PatternRun.after character runs).map fun left => ⟨done, piece ++ [character], left, []⟩
  | item :: later =>
      ((PatternRun.after character runs).map fun left =>
        ⟨done, piece ++ [character], left, item :: later⟩) ++
        if PatternRun.areOptional runs then
          item.alternatives.flatMap fun runs => follow character (done ++ [piece]) [] runs later
        else []

/-- Where a character leads. -/
def step (character : Char) (thread : PatternThread) : List PatternThread :=
  follow character thread.done thread.piece thread.runs thread.later

/-- The pieces of all items if the text is over. -/
def finish? (done : List (List Char)) (piece : List Char) (runs : List PatternRun) :
    List PatternItem → Option (List (List Char))
  | [] => if PatternRun.areOptional runs then some (done ++ [piece]) else none
  | item :: later =>
      if PatternRun.areOptional runs then
        item.alternatives.findSome? fun runs => finish? (done ++ [piece]) [] runs later
      else none

/-- The pieces of a thread if the text is over. -/
def pieces? (thread : PatternThread) : Option (List (List Char)) :=
  finish? thread.done thread.piece thread.runs thread.later

/-- Whether two threads go on alike. -/
def agrees (first second : PatternThread) : Bool :=
  first.runs = second.runs && first.later = second.later

/-- The first of the threads that go on alike. -/
def firstOfEach (threads : List PatternThread) : List PatternThread :=
  threads.foldl
    (fun kept thread => if kept.any thread.agrees then kept else kept ++ [thread]) []

/-- Where a character leads from several threads. -/
def advance (threads : List PatternThread) (character : Char) : List PatternThread :=
  firstOfEach (threads.flatMap (·.step character))

end PatternThread

/-- A pattern, from the start of a text to its end. -/
structure Pattern where
  items : List PatternItem
deriving DecidableEq

namespace Pattern

/-- The thread at the start of a text, with an empty piece in front of the first item. -/
def start (pattern : Pattern) : PatternThread := ⟨[], [], [], pattern.items⟩

/-- The pieces into which a pattern cuts a text, one for each item. -/
def cut? (pattern : Pattern) (text : List Char) : Option (List (List Char)) :=
  ((text.foldl PatternThread.advance [pattern.start]).findSome? (·.pieces?)).map List.tail

/-- What the groups of a pattern capture if it matches a text. -/
def captures? (pattern : Pattern) (text : String) : Option (List String) :=
  (pattern.cut? text.toList).map fun pieces =>
    (pattern.items.zip pieces).filterMap fun (item, piece) =>
      if item.isGroup then some (String.ofList piece) else none

/-- Whether a pattern matches a text. -/
def matchesText (pattern : Pattern) (text : String) : Bool := (pattern.cut? text.toList).isSome

/-- How a pattern is written. -/
def text (pattern : Pattern) : String :=
  "^" ++ "".intercalate (pattern.items.map PatternItem.text) ++ "$"

end Pattern

end Waveform
