import Waveform.Channel.Selection
import Waveform.Proofs.Channel.Patterns

/-!
# What globs mean

The meaning of a glob is told by its characters alone: a text matches it if the text can be cut into
pieces, one for each character, such that every character stands for its piece. The pattern that a
glob is translated to asks for the same pieces, and so a selection rejects a channel for the first
of its codes that does not match the glob that was set last for it.
-/

namespace Waveform

/-! ## The meaning of a glob -/

namespace Glob

/-- Whether a character of a glob stands for itself: a letter or a digit of ASCII, a hyphen or a
point. -/
def IsPlain (character : Char) : Prop :=
  character.isAlphanum = true ∨ character = '-' ∨ character = '.'

/-- Whether a character of a glob stands for something. -/
def HasMeaning (character : Char) : Prop :=
  IsPlain character ∨ character = '*' ∨ character = '?'

/-- The pieces of a text that a character of a glob stands for. -/
inductive StandsFor : Char → List Char → Prop where
  | itself {character : Char} (plain : IsPlain character) : StandsFor character [character]
  | anyOne {other : Char} (sameLine : other ≠ '\n') : StandsFor '?' [other]
  | anyRun {run : List Char} (sameLine : '\n' ∉ run) : StandsFor '*' run

/-- Whether a text can be cut into pieces for the characters of a glob. -/
def Matches (glob text : String) : Prop :=
  ∃ pieces : List (List Char),
    List.Forall₂ StandsFor glob.toList pieces ∧ pieces.flatten = text.toList

/-- Whether a text is a glob: it has characters, and each of them stands for something. -/
structure WellFormed (glob : String) : Prop where
  nonempty : glob ≠ ""
  meaningful : ∀ character ∈ glob.toList, HasMeaning character

end Glob

/-! ## Reading globs -/

namespace Glob

theorem standsFor_plain {character : Char} (plain : IsPlain character) {piece : List Char} :
    StandsFor character piece ↔ piece = [character] := by
  constructor
  · intro stands
    cases stands with
    | itself => rfl
    | anyOne | anyRun => exact absurd plain (by simp [IsPlain])
  · rintro rfl
    exact .itself plain

theorem standsFor_anyOne {piece : List Char} :
    StandsFor '?' piece ↔ ∃ other, other ≠ '\n' ∧ piece = [other] := by
  constructor
  · intro stands
    cases stands with
    | itself plain => exact absurd plain (by simp [IsPlain])
    | anyOne sameLine => exact ⟨_, sameLine, rfl⟩
  · rintro ⟨other, sameLine, rfl⟩
    exact .anyOne sameLine

theorem standsFor_anyRun {piece : List Char} : StandsFor '*' piece ↔ '\n' ∉ piece := by
  constructor
  · intro stands
    cases stands with
    | itself plain => exact absurd plain (by simp [IsPlain])
    | anyRun sameLine => exact sameLine
  · exact .anyRun

theorem accepts_any_iff {character : Char} :
    CharacterClass.any.accepts character = true ↔ character ≠ '\n' := by
  simp [CharacterClass.accepts]

theorem matches_anyRun {piece : List Char} :
    (PatternItem.plain ⟨.any, 0, none⟩).Matches piece ↔ '\n' ∉ piece := by
  rw [PatternItem.matches_plain]
  constructor
  · intro isMatch member
    exact accepts_any_iff.mp (isMatch.accepted _ member) rfl
  · intro sameLine
    refine ⟨fun character member => accepts_any_iff.mpr ?_, Nat.zero_le _, by simp⟩
    rintro rfl
    exact sameLine member

/-- A character that is translated has a meaning, and its item asks for what the character stands
for. -/
theorem itemOf?_spec (character : Char) :
    match itemOf? character with
    | none => ¬HasMeaning character
    | some item =>
        HasMeaning character ∧ ∀ piece, item.Matches piece ↔ StandsFor character piece := by
  unfold itemOf?
  by_cases isRun : character = '*'
  · subst isRun
    exact ⟨.inr (.inl rfl), fun piece => matches_anyRun.trans standsFor_anyRun.symm⟩
  by_cases isOne : character = '?'
  · subst isOne
    refine ⟨.inr (.inr rfl), fun piece => ?_⟩
    rw [PatternItem.matches_plain, PatternRun.matches_one_iff, standsFor_anyOne]
    simp only [accepts_any_iff]
  rw [if_neg isRun, if_neg isOne]
  by_cases plain : IsPlain character
  · rw [if_pos (by simpa [IsPlain, or_assoc] using plain)]
    refine ⟨.inl plain, fun piece => ?_⟩
    rw [PatternItem.matches_plain, PatternRun.matches_one_iff, standsFor_plain plain]
    simp [CharacterClass.accepts]
  · rw [if_neg (by simpa [IsPlain, or_assoc] using plain)]
    simp [HasMeaning, plain, isRun, isOne]

/-- Characters that are all translated give items that ask for what the characters stand for. -/
theorem mapM_itemOf?_spec (characters : List Char) :
    match characters.mapM itemOf? with
    | none => ∃ character ∈ characters, ¬HasMeaning character
    | some items =>
        (∀ character ∈ characters, HasMeaning character) ∧
          ∀ pieces, List.Forall₂ PatternItem.Matches items pieces ↔
            List.Forall₂ StandsFor characters pieces := by
  induction characters with
  | nil => simp
  | cons character later ih =>
      have first := itemOf?_spec character
      rw [List.mapM_cons]
      cases isRead : itemOf? character with
      | none =>
          rw [isRead] at first
          exact ⟨character, List.mem_cons_self, first⟩
      | some item =>
          rw [isRead] at first
          cases areRead : later.mapM itemOf? with
          | none =>
              rw [areRead] at ih
              obtain ⟨other, member, meaningless⟩ := ih
              exact ⟨other, List.mem_cons_of_mem character member, meaningless⟩
          | some items =>
              rw [areRead] at ih
              refine ⟨List.forall_mem_cons.mpr ⟨first.1, ih.1⟩, fun pieces => ?_⟩
              simp only [List.forall₂_cons_left_iff, first.2, ih.2]

/-- A text is read as a glob exactly if it is well formed, and the glob matches what the text
means. -/
theorem parse?_spec (glob : String) :
    match Glob.parse? glob with
    | none => ¬WellFormed glob
    | some parsed =>
        WellFormed glob ∧ ∀ text, parsed.matchesText text = true ↔ Matches glob text := by
  have characters := mapM_itemOf?_spec glob.toList
  unfold Glob.parse?
  by_cases isEmpty : glob = ""
  · rw [if_pos (by simp [isEmpty])]
    exact fun wellFormed => wellFormed.nonempty isEmpty
  rw [if_neg (by simpa using isEmpty)]
  cases areRead : glob.toList.mapM itemOf? with
  | none =>
      rw [areRead] at characters
      obtain ⟨character, member, meaningless⟩ := characters
      exact fun wellFormed => meaningless (wellFormed.meaningful character member)
  | some items =>
      rw [areRead] at characters
      refine ⟨⟨isEmpty, characters.1⟩, fun text => ?_⟩
      simp only [matchesText, Pattern.matchesText_iff, Pattern.Cuts, characters.2]
      rfl

/-- An asterisk stands for nothing as well, but never for a line feed. -/
example :
    (Glob.parse? "B?*").map (fun glob => ["B", "BH", "BHZ", "BH\n"].map glob.matchesText) =
      some [false, true, true, false] := by decide

end Glob

/-! ## Selections -/

namespace Selection

/-- The text that was set last for a code. -/
def latest? (settings : List (ChannelCode × Option String)) (code : ChannelCode) :
    Option String :=
  settings.reverse.findSome? fun setting => if setting.1 = code then setting.2 else none

theorem latest?_cons (setting : ChannelCode × Option String)
    (later : List (ChannelCode × Option String)) (code : ChannelCode) :
    latest? (setting :: later) code =
      (latest? later code).or (if setting.1 = code then setting.2 else none) := by
  simp [latest?, List.findSome?_append]

@[simp] theorem get_set (selection : Selection) (code other : ChannelCode) (glob : Glob) :
    (selection.set code glob).get other = if code = other then some glob else selection.get other :=
  by cases code <;> cases other <;> rfl

/-- Whether all texts of some settings are globs. -/
def WellFormed (settings : List (ChannelCode × Option String)) : Prop :=
  ∀ setting ∈ settings, ∀ text ∈ setting.2, Glob.WellFormed text

theorem mem_of_latest? {settings : List (ChannelCode × Option String)} {code : ChannelCode}
    {glob : String} (isLatest : glob ∈ latest? settings code) : (code, some glob) ∈ settings := by
  obtain ⟨setting, member, isFound⟩ := List.exists_of_findSome?_eq_some isLatest
  split at isFound
  next sameCode =>
    rw [← sameCode, ← isFound]
    exact List.mem_reverse.mp member
  next => cases isFound

/-- Setting one text fails if it is no glob, and changes the glob of no other code. -/
theorem setText_spec (selection : Selection) (code : ChannelCode) (text : Option String) :
    match selection.setText code text with
    | .error malformed =>
        malformed.code = code ∧ some malformed.text = text ∧ ¬Glob.WellFormed malformed.text
    | .ok next =>
        (∀ glob ∈ text, Glob.WellFormed glob) ∧
          ∀ other, next.get other =
            ((if code = other then text else none).map Glob.parse?).getD (selection.get other) := by
  cases text with
  | none => simp [setText]
  | some text =>
      have read := Glob.parse?_spec text
      simp only [setText]
      cases isRead : Glob.parse? text with
      | none =>
          rw [isRead] at read
          exact ⟨rfl, rfl, read⟩
      | some glob =>
          rw [isRead] at read
          refine ⟨by simpa using read.1, fun other => ?_⟩
          rw [get_set]
          split <;> simp [isRead]

theorem setTexts_cons (selection : Selection) (setting : ChannelCode × Option String)
    (later : List (ChannelCode × Option String)) :
    selection.setTexts (setting :: later) =
      (selection.setText setting.1 setting.2).bind fun next => next.setTexts later := by
  simp only [setTexts, List.foldlM_cons]
  rfl

/-- Setting texts in turn fails at the first one that is no glob. If all are globs, every code gets
the one that was set last for it. -/
theorem setTexts_spec (selection : Selection) (settings : List (ChannelCode × Option String)) :
    match selection.setTexts settings with
    | .error malformed =>
        ∃ before later, settings = before ++ (malformed.code, some malformed.text) :: later ∧
          WellFormed before ∧ ¬Glob.WellFormed malformed.text
    | .ok final =>
        WellFormed settings ∧
          ∀ code, final.get code =
            ((latest? settings code).map Glob.parse?).getD (selection.get code) := by
  induction settings generalizing selection with
  | nil => exact ⟨List.forall_mem_nil _, fun code => rfl⟩
  | cons setting later ih =>
      have first := setText_spec selection setting.1 setting.2
      rw [setTexts_cons]
      cases isSet : selection.setText setting.1 setting.2 with
      | error malformed =>
          rw [isSet] at first
          obtain ⟨sameCode, sameText, isMalformed⟩ := first
          exact ⟨[], later, by rw [sameCode, sameText]; rfl, List.forall_mem_nil _, isMalformed⟩
      | ok next =>
          rw [isSet] at first
          have others := ih next
          simp only [Except.bind]
          cases areSet : next.setTexts later with
          | error malformed =>
              rw [areSet] at others
              obtain ⟨before, behind, rfl, beforeFormed, isMalformed⟩ := others
              exact ⟨setting :: before, behind, rfl,
                List.forall_mem_cons.mpr ⟨first.1, beforeFormed⟩, isMalformed⟩
          | ok final =>
              rw [areSet] at others
              refine ⟨List.forall_mem_cons.mpr ⟨first.1, others.1⟩, fun code => ?_⟩
              rw [others.2, first.2, latest?_cons]
              cases latest? later code <;> rfl

/-- A code whose glob was set from texts that are globs is accepted as the last of these means. -/
theorem accepts_iff {selection : Selection} {settings : List (ChannelCode × Option String)}
    {code : ChannelCode} (wellFormed : WellFormed settings)
    (isSet : selection.get code = ((latest? settings code).map Glob.parse?).getD none)
    (id : ChannelId) :
    selection.accepts id code = true ↔
      ∀ glob ∈ latest? settings code, Glob.Matches glob (code.get id) := by
  unfold accepts
  rw [isSet]
  cases isLatest : latest? settings code with
  | none => simp
  | some glob =>
      have globFormed := wellFormed (code, some glob) (mem_of_latest? isLatest) glob rfl
      have read := Glob.parse?_spec glob
      cases isRead : Glob.parse? glob with
      | none =>
          rw [isRead] at read
          exact absurd globFormed read
      | some parsed =>
          rw [isRead] at read
          simp [isRead, read.2]

open Classical in
/-- Globs can be set exactly if they are globs, and the complaint is about the first that is none.
Then a channel is rejected for the first of its codes, network, station, location and channel, that
does not match the glob that was set last for it. -/
theorem setTexts_rejects (settings : List (ChannelCode × Option String)) :
    ((∃ selection, everything.setTexts settings = .ok selection) ↔ WellFormed settings) ∧
      match everything.setTexts settings with
      | .error malformed =>
          ∃ before later, settings = before ++ (malformed.code, some malformed.text) :: later ∧
            WellFormed before ∧ ¬Glob.WellFormed malformed.text
      | .ok selection =>
          ∀ id, selection.rejectedBy id =
            [ChannelCode.network, .station, .location, .channel].find? fun code =>
              ∃ glob ∈ latest? settings code, ¬Glob.Matches glob (code.get id) := by
  have spec := setTexts_spec everything settings
  cases isSet : everything.setTexts settings with
  | error malformed =>
      rw [isSet] at spec
      refine ⟨⟨fun ⟨_, isOk⟩ => (nomatch isOk), fun wellFormed => ?_⟩, spec⟩
      obtain ⟨before, later, rfl, _, isMalformed⟩ := spec
      exact absurd (wellFormed _ List.mem_append_cons_self malformed.text rfl) isMalformed
  | ok selection =>
      rw [isSet] at spec
      refine ⟨⟨fun _ => spec.1, fun _ => ⟨selection, rfl⟩⟩, fun id => ?_⟩
      refine congrArg (List.find? · ChannelCode.all) (funext fun code => ?_)
      have unset : everything.get code = none := by cases code <;> rfl
      rw [Bool.eq_iff_iff, decide_eq_true_iff, Bool.not_eq_true', ← Bool.not_eq_true,
        accepts_iff spec.1 (unset ▸ spec.2 code) id]
      simp

end Selection

end Waveform
