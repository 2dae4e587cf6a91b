import Waveform.Text.Pattern

/-!
# Globs

A glob matches whole texts: a letter, a digit, a hyphen or a point stands for itself, a question
mark for any one character, and an asterisk for any run of characters. No wildcard stands for a
line feed. A glob is translated to a pattern, character by character.
-/

namespace Waveform

/-- A glob, as the pattern that it is translated to. -/
structure Glob where
  pattern : Pattern
deriving DecidableEq

namespace Glob

/-- What a character of a glob is translated to. -/
def itemOf? (character : Char) : Option PatternItem :=
  if character = '*' then some (.plain ⟨.any, 0, none⟩)
  else if character = '?' then some (.plain (.one .any))
  else if character.isAlphanum || character = '-' || character = '.' then
    some (.plain (.one (.only character)))
  else none

/-- Read a glob. It has at least one character, and none but those with a meaning. -/
def parse? (text : String) : Option Glob :=
  if text.isEmpty then none else (text.toList.mapM itemOf?).map fun items => ⟨⟨items⟩⟩

/-- A point is marked, for in a pattern it would stand for any character. -/
example : (parse? "B?.*").map (fun glob => glob.pattern.text) = some "^B.\\..*$" := by decide

/-- Whether a glob matches a text as a whole. -/
def matchesText (glob : Glob) (text : String) : Bool := glob.pattern.matchesText text

end Glob

end Waveform
