/-!
# Reading bytes as UTF-8 with replacement

Every byte list has a text: well-formed sequences stand for their characters, and each longest
ill-formed piece (a truncated sequence, or a byte that starts none) for one replacement character.
-/

namespace Waveform.Text

/-- The continuation bytes a leading byte asks for: how many, and the range of the first of them.
The narrower ranges leave out overlong forms, surrogates and values past the last code point. -/
def continuations? (lead : Nat) : Option (Nat × Nat × Nat) :=
  if 0xc2 ≤ lead ∧ lead ≤ 0xdf then some (1, 0x80, 0xbf)
  else if lead = 0xe0 then some (2, 0xa0, 0xbf)
  else if lead = 0xed then some (2, 0x80, 0x9f)
  else if 0xe1 ≤ lead ∧ lead ≤ 0xef then some (2, 0x80, 0xbf)
  else if lead = 0xf0 then some (3, 0x90, 0xbf)
  else if lead = 0xf4 then some (3, 0x80, 0x8f)
  else if 0xf1 ≤ lead ∧ lead ≤ 0xf3 then some (3, 0x80, 0xbf)
  else none

/-- The longest run of at most `count` continuation bytes, the first of them in the given range. -/
def continuationRun (lower upper : Nat) : Nat → List UInt8 → List UInt8
  | count + 1, byte :: rest =>
      if lower ≤ byte.toNat ∧ byte.toNat ≤ upper then
        byte :: continuationRun 0x80 0xbf count rest
      else []
  | _, _ => []

/-- The bits that a leading byte contributes to a character of so many continuation bytes. -/
def leadBits (lead count : Nat) : Nat := lead % Nat.pow 2 (6 - count)

/-- The characters of a byte list. -/
def utf8Characters : List UInt8 → List Char
  | [] => []
  | lead :: rest =>
      if lead.toNat < 0x80 then Char.ofNat lead.toNat :: utf8Characters rest
      else
        match continuations? lead.toNat with
        | none => '\ufffd' :: utf8Characters rest
        | some (count, lower, upper) =>
            let run := continuationRun lower upper count rest
            let character :=
              if run.length = count then
                Char.ofNat
                  (run.foldl (fun value byte => 64 * value + byte.toNat % 64)
                    (leadBits lead.toNat count))
              else '\ufffd'
            character :: utf8Characters (rest.drop run.length)
termination_by bytes => bytes.length
decreasing_by all_goals (simp only [List.length_cons, List.length_drop]; omega)

/-- The text of a byte list. -/
def ofUtf8 (bytes : List UInt8) : String := String.ofList (utf8Characters bytes)

end Waveform.Text
