import Waveform.Text.Invisible

/-!
# Quoted text

Text between quotation marks, as error messages show what was given: quotation marks and
backslashes are escaped, common controls have a letter of their own, and every other invisible
character is written as its code point.
-/

namespace Waveform.Text

/-- The lower-case hexadecimal digits of a code point. -/
def codePointDigits (character : Char) : List Char := Nat.toDigits 16 character.toNat

/-- How one character is written between quotation marks. -/
def quotedCharacter (character : Char) : List Char :=
  match character with
  | '\x00' => ['\\', '0']
  | '\t' => ['\\', 't']
  | '\r' => ['\\', 'r']
  | '\n' => ['\\', 'n']
  | '\\' => ['\\', '\\']
  | '"' => ['\\', '"']
  | _ =>
      if isInvisible character then
        ['\\', 'u', '\x7b'] ++ codePointDigits character ++ ['\x7d']
      else [character]

/-- A text between quotation marks. -/
def quoted (text : String) : String :=
  String.ofList ('"' :: text.toList.flatMap quotedCharacter ++ ['"'])

end Waveform.Text
