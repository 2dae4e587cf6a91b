import Waveform.Decimal.Shortest

/-!
# JSON documents

A JSON value whose records keep the order of their fields, and its text over several lines with two
blanks a level. Empty lists and records stay on one line.
-/

namespace Waveform

/-- A JSON value. -/
inductive Json where
  | null
  | integer (value : Int)
  | decimal (value : Float)
  | text (value : String)
  | list (items : List Json)
  | record (fields : List (String × Json))

namespace Json

/-- How one character is written inside a JSON text. -/
def textCharacter (character : Char) : List Char :=
  match character with
  | '"' => ['\\', '"']
  | '\\' => ['\\', '\\']
  | '\x08' => ['\\', 'b']
  | '\x0c' => ['\\', 'f']
  | '\n' => ['\\', 'n']
  | '\r' => ['\\', 'r']
  | '\t' => ['\\', 't']
  | _ =>
      if character.toNat < 0x20 then
        ['\\', 'u', '0', '0'] ++
          [Nat.digitChar (character.toNat / 16), Nat.digitChar (character.toNat % 16)]
      else [character]

/-- A JSON text between quotation marks. -/
def quotedText (value : String) : String :=
  String.ofList ('"' :: value.toList.flatMap textCharacter ++ ['"'])

/-- The start of a line at a nesting level. -/
def margin (level : Nat) : String := String.ofList (List.replicate (2 * level) ' ')

/-- Items on lines of their own at one level deeper, between an opening and a closing mark. -/
def block (opening closing : String) (level : Nat) (items : List String) : String :=
  if items.isEmpty then opening ++ closing
  else
    opening ++ "\n" ++
      String.intercalate ",\n" (items.map fun item => margin (level + 1) ++ item) ++
      "\n" ++ margin level ++ closing

mutual

/-- The text of a value that stands at a nesting level. -/
def textAt (level : Nat) : Json → String
  | .null => "null"
  | .integer value => toString value
  | .decimal value => Decimal.reportText value
  | .text value => quotedText value
  | .list items => block "[" "]" level (itemTexts (level + 1) items)
  | .record fields => block "\x7b" "\x7d" level (fieldTexts (level + 1) fields)

/-- The texts of the items of a list. -/
def itemTexts (level : Nat) : List Json → List String
  | [] => []
  | item :: rest => textAt level item :: itemTexts level rest

/-- The texts of the fields of a record, each with its name. -/
def fieldTexts (level : Nat) : List (String × Json) → List String
  | [] => []
  | (name, value) :: rest =>
      (quotedText name ++ ": " ++ textAt level value) :: fieldTexts level rest

end

/-- The text of a whole document, without a final line break. -/
def pretty (document : Json) : String := textAt 0 document

end Json

end Waveform
