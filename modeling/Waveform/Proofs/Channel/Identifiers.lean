import Waveform.Proofs.Channel.KeyTexts
import Waveform.Proofs.Channel.Patterns

/-!
# Reading the texts of channels

What can be read is told without the pattern: the texts of identifiers whose codes are short runs of
capital letters and digits, or two hyphens for the location. The pattern cuts a text only into the
codes of such an identifier and what parts them. Therefore the text of one is read back as it, and
it is the text of no other one.
-/

namespace Waveform.ChannelId

/-- Whether a character is a capital letter or a digit of ASCII. -/
def IsCapitalOrDigit (character : Char) : Prop :=
  ('A' ≤ character ∧ character ≤ 'Z') ∨ ('0' ≤ character ∧ character ≤ '9')

instance : DecidablePred IsCapitalOrDigit :=
  fun _ => inferInstanceAs (Decidable (_ ∨ _))

/-- Whether a code is a run of capital letters and digits, of a length between two bounds. -/
structure IsRun (least most : Nat) (code : String) : Prop where
  characters : ∀ character ∈ code.toList, IsCapitalOrDigit character
  least_le : least ≤ code.length
  le_most : code.length ≤ most

/-- Whether the codes of an identifier are those that a text of the form `NET_STA LOC-CHA` has. -/
structure Readable (id : ChannelId) : Prop where
  network : IsRun 1 2 id.network
  station : IsRun 1 5 id.station
  location : IsRun 2 2 id.location ∨ id.location = blankLocation
  channel : IsRun 3 3 id.channel

variable {id : ChannelId} {least most : Nat}

/-! ## Codes -/

theorem isCapitalOrDigit_iff {character : Char} :
    (codeRun least most).kind.accepts character = true ↔ IsCapitalOrDigit character := by
  simp [codeRun, CharacterClass.accepts, IsCapitalOrDigit]

theorem matches_codeRun_iff {code : String} :
    (codeRun least most).Matches code.toList ↔ IsRun least most code := by
  constructor
  · rintro ⟨areAccepted, atLeast, atMost⟩
    exact ⟨fun character member => isCapitalOrDigit_iff.mp (areAccepted character member), atLeast,
      atMost most rfl⟩
  · rintro ⟨areCharacters, atLeast, atMost⟩
    refine ⟨fun character member => isCapitalOrDigit_iff.mpr (areCharacters character member),
      atLeast, ?_⟩
    intro bound isBound
    obtain rfl := Option.some.inj isBound
    exact atMost

/-- A character that parts codes is in none of them. -/
theorem IsRun.notMem {code : String} (isRun : IsRun least most code) {separator : Char}
    (parts : ¬IsCapitalOrDigit separator) : separator ∉ code.toList :=
  fun member => parts (isRun.characters separator member)

theorem Readable.separable (readable : id.Readable) : id.Separable where
  network := readable.network.notMem (by decide)
  station := readable.station.notMem (by decide)
  location := by
    cases readable.location with
    | inl isRun =>
        have nonempty : id.location ≠ "" := by
          intro isEmpty
          have atLeast := isRun.least_le
          rw [isEmpty] at atLeast
          exact absurd atLeast (by decide)
        exact .inr ⟨nonempty, isRun.notMem (by decide)⟩
    | inr isBlank => exact .inl isBlank

theorem matches_code {piece : List Char} :
    (PatternItem.group [[codeRun least most]]).Matches piece ↔
      IsRun least most (String.ofList piece) := by
  rw [PatternItem.matches_group, ← matches_codeRun_iff, String.toList_ofList]
  simp [PatternRun.rowMatches_singleton]

theorem matches_location {piece : List Char} :
    (PatternItem.group [[codeRun 2 2], [.one (.only '-'), .one (.only '-')]]).Matches piece ↔
      IsRun 2 2 (String.ofList piece) ∨ String.ofList piece = blankLocation := by
  have isHyphens : PatternRun.RowMatches [.one (.only '-'), .one (.only '-')] piece ↔
      String.ofList piece = blankLocation := by
    simp [PatternRun.rowMatches_cons, PatternRun.rowMatches_nil, PatternRun.matches_one_iff,
      CharacterClass.accepts, blankLocation, ← String.toList_inj, eq_comm]
  rw [PatternItem.matches_group, ← matches_codeRun_iff, ← isHyphens, String.toList_ofList]
  simp [PatternRun.rowMatches_singleton]

theorem matches_separator {character : Char} {piece : List Char} :
    (separator character).Matches piece ↔ piece = [character] := by
  rw [separator, PatternItem.matches_plain, PatternRun.matches_one_iff]
  simp [CharacterClass.accepts]

/-! ## Cutting a text -/

/-- The codes of an identifier and what parts them. -/
def pieces (id : ChannelId) : List (List Char) :=
  [id.network.toList, ['_'], id.station.toList, [' '], id.location.toList, ['-'],
    id.channel.toList]

theorem flatten_pieces (id : ChannelId) : id.pieces.flatten = id.text.toList := by
  simp [pieces, toList_text]

/-- The pattern cuts a text into the codes of a readable identifier, whose text it is. -/
theorem cuts_iff {text : List Char} {cut : List (List Char)} :
    pattern.Cuts text cut ↔
      ∃ id : ChannelId, id.Readable ∧ id.text.toList = text ∧ cut = id.pieces := by
  constructor
  · rintro ⟨areMatches, isText⟩
    match cut, areMatches with
    | [network, _, station, _, location, _, channel],
      .cons isNetwork (.cons isBar (.cons isStation (.cons isBlank (.cons isLocation
        (.cons isHyphen (.cons isChannel .nil)))))) =>
        obtain rfl := matches_separator.mp isBar
        obtain rfl := matches_separator.mp isBlank
        obtain rfl := matches_separator.mp isHyphen
        let id : ChannelId :=
          ⟨.ofList network, .ofList station, .ofList location, .ofList channel⟩
        have isPieces : [network, ['_'], station, [' '], location, ['-'], channel] = id.pieces := by
          simp only [pieces, id, String.toList_ofList]
        refine ⟨id, ⟨matches_code.mp isNetwork, matches_code.mp isStation,
          matches_location.mp isLocation, matches_code.mp isChannel⟩, ?_, isPieces⟩
        rw [← isText, isPieces, flatten_pieces]
  · rintro ⟨id, readable, rfl, rfl⟩
    refine ⟨?_, flatten_pieces id⟩
    simp only [pattern, pieces, List.forall₂_cons, matches_code, matches_separator,
      matches_location, String.ofList_toList, List.Forall₂.nil, true_and, and_true]
    exact ⟨readable.network, readable.station, readable.location, readable.channel⟩

/-! ## Reading a whole text -/

theorem parse?_of_cut? {text : String} (isCut : pattern.cut? text.toList = some id.pieces) :
    parse? text = some id := by
  rw [parse?, Pattern.captures?, isCut]
  simp [pattern, pieces, PatternItem.isGroup, separator]

/-- A text is read as the identifier that is readable and has it. -/
theorem parse?_eq_some_iff {text : String} :
    parse? text = some id ↔ id.Readable ∧ id.text = text := by
  have spec := pattern.cut?_spec text.toList
  cases isCut : pattern.cut? text.toList with
  | none =>
      rw [isCut] at spec
      have notRead : parse? text = none := by rw [parse?, Pattern.captures?, isCut]; rfl
      rw [notRead]
      refine iff_of_false (nomatch ·) ?_
      rintro ⟨readable, rfl⟩
      exact spec id.pieces (cuts_iff.mpr ⟨id, readable, rfl, rfl⟩)
  | some cut =>
      rw [isCut] at spec
      obtain ⟨found, isReadable, isText, rfl⟩ := cuts_iff.mp spec
      rw [parse?_of_cut? isCut, Option.some.injEq]
      constructor
      · rintro rfl
        exact ⟨isReadable, String.toList_inj.mp isText⟩
      · rintro ⟨readable, rfl⟩
        exact eq_of_text_eq isReadable.separable readable.separable (String.toList_inj.mp isText)

/-- A text is read as an identifier exactly if that is readable and has the text; a text is read at
all exactly if it is the text of one and only one readable identifier; and exactly the readable
identifiers are read back from their own texts. -/
theorem parse?_reads (text : String) (id : ChannelId) :
    (parse? text = some id ↔ id.Readable ∧ id.text = text) ∧
      ((parse? text).isSome ↔ ∃! found : ChannelId, found.Readable ∧ found.text = text) ∧
      (parse? id.text = some id ↔ id.Readable) := by
  refine ⟨parse?_eq_some_iff, ?_, ?_⟩
  · rw [Option.isSome_iff_exists]
    constructor
    · rintro ⟨found, isRead⟩
      obtain ⟨readable, isText⟩ := parse?_eq_some_iff.mp isRead
      refine ⟨found, ⟨readable, isText⟩, ?_⟩
      rintro other ⟨otherReadable, otherText⟩
      exact eq_of_text_eq otherReadable.separable readable.separable (otherText.trans isText.symm)
    · rintro ⟨found, isReadable, _⟩
      exact ⟨found, parse?_eq_some_iff.mpr isReadable⟩
  · rw [parse?_eq_some_iff]
    exact and_iff_left rfl

/-- The hyphens of a blank location are not taken for the one in front of the channel. -/
example : parse? "IU_ANMO ---BHZ" = some ⟨"IU", "ANMO", blankLocation, "BHZ"⟩ := by cbv

end Waveform.ChannelId
