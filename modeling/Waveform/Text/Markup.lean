/-!
# Text inside markup

Characters with a meaning in markup are replaced by character references.
-/

namespace Waveform.Text

/-- How one character is written inside markup. -/
def markupCharacter (character : Char) : List Char :=
  match character with
  | '&' => "&amp;".toList
  | '<' => "&lt;".toList
  | '>' => "&gt;".toList
  | '"' => "&quot;".toList
  | '\'' => "&#x27;".toList
  | '=' => "&#x3D;".toList
  | '\x60' => "&#x60;".toList
  | _ => [character]

/-- A text that markup shows unchanged. -/
def inMarkup (text : String) : String :=
  String.ofList (text.toList.flatMap markupCharacter)

end Waveform.Text
