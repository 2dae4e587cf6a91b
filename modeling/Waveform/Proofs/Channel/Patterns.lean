import Mathlib.Data.List.Forall2
import Mathlib.Data.List.Induction
import Waveform.Text.Pattern

/-!
# What patterns mean

A pattern matches a text if the text can be cut into pieces, one for each item, such that every
piece is what its item asks for. Following a pattern through a text finds such pieces exactly if
there are any: a thread can be finished with a text if and only if one of the threads can, to which
the first character leads, with the rest.
-/

namespace Waveform

/-! ## The meaning of a pattern -/

namespace PatternRun

/-- Whether some characters are a run of a class and of an admitted length. -/
structure Matches (run : PatternRun) (piece : List Char) : Prop where
  accepted : ∀ character ∈ piece, run.kind.accepts character = true
  least_le : run.least ≤ piece.length
  le_most : ∀ most ∈ run.most, piece.length ≤ most

/-- Whether some characters are runs in a row. -/
def RowMatches (runs : List PatternRun) (text : List Char) : Prop :=
  ∃ pieces, List.Forall₂ Matches runs pieces ∧ pieces.flatten = text

end PatternRun

/-- Whether some characters are what an item asks for. -/
def PatternItem.Matches (item : PatternItem) (piece : List Char) : Prop :=
  ∃ runs ∈ item.alternatives, PatternRun.RowMatches runs piece

/-- Whether a text is cut into pieces as a pattern asks for. -/
def Pattern.Cuts (pattern : Pattern) (text : List Char) (pieces : List (List Char)) : Prop :=
  List.Forall₂ PatternItem.Matches pattern.items pieces ∧ pieces.flatten = text

/-! ## Runs in a row -/

namespace PatternRun

variable {run : PatternRun} {runs later : List PatternRun} {character : Char}
  {piece text : List Char}

theorem matches_nil_iff : run.Matches [] ↔ run.least = 0 := by
  constructor
  · exact fun isMatch => Nat.le_zero.mp isMatch.least_le
  · intro isOptional
    exact ⟨by simp, by simp [isOptional], by simp⟩

theorem matches_cons_iff :
    run.Matches (character :: piece) ↔ run.takes character = true ∧ run.next.Matches piece := by
  obtain ⟨kind, least, most⟩ := run
  simp only [takes, next, Bool.and_eq_true, decide_eq_true_iff]
  constructor
  · rintro ⟨accepted, atLeast, atMost⟩
    obtain ⟨first, others⟩ := List.forall_mem_cons.mp accepted
    refine ⟨⟨?_, first⟩, ⟨others, Nat.sub_le_of_le_add atLeast, ?_⟩⟩
    · rintro rfl
      exact absurd (atMost 0 rfl) (Nat.not_succ_le_zero _)
    · intro bound isBound
      obtain ⟨former, isFormer, rfl⟩ := Option.map_eq_some_iff.mp isBound
      exact Nat.le_sub_one_of_lt (atMost former isFormer)
  · rintro ⟨⟨notFull, first⟩, ⟨others, atLeast, atMost⟩⟩
    refine ⟨List.forall_mem_cons.mpr ⟨first, others⟩, Nat.le_add_of_sub_le atLeast, ?_⟩
    intro bound isBound
    have reached := atMost (bound - 1) (Option.map_eq_some_iff.mpr ⟨bound, isBound, rfl⟩)
    have positive : bound ≠ 0 := by
      rintro rfl
      exact notFull isBound
    rw [List.length_cons]
    omega

theorem rowMatches_nil : RowMatches [] text ↔ text = [] := by
  simp [RowMatches, eq_comm]

theorem rowMatches_cons :
    RowMatches (run :: later) text ↔
      ∃ piece rest, run.Matches piece ∧ RowMatches later rest ∧ piece ++ rest = text := by
  constructor
  · rintro ⟨_, areMatches, rfl⟩
    obtain ⟨piece, pieces, isMatch, laterMatch, rfl⟩ := List.forall₂_cons_left_iff.mp areMatches
    exact ⟨piece, pieces.flatten, isMatch, ⟨pieces, laterMatch, rfl⟩, rfl⟩
  · rintro ⟨piece, _, isMatch, ⟨pieces, laterMatch, rfl⟩, rfl⟩
    exact ⟨piece :: pieces, .cons isMatch laterMatch, rfl⟩

theorem rowMatches_empty : RowMatches runs [] ↔ areOptional runs = true := by
  induction runs with
  | nil => simp [rowMatches_nil, areOptional]
  | cons run later ih =>
      rw [rowMatches_cons]
      simp only [areOptional, List.all_cons, Bool.and_eq_true, decide_eq_true_iff] at ih ⊢
      rw [← ih, ← matches_nil_iff]
      constructor
      · rintro ⟨piece, rest, isMatch, laterMatch, isEmpty⟩
        obtain ⟨rfl, rfl⟩ := List.append_eq_nil_iff.mp isEmpty
        exact ⟨isMatch, laterMatch⟩
      · rintro ⟨isMatch, laterMatch⟩
        exact ⟨[], [], isMatch, laterMatch, rfl⟩

/-- The first character belongs to the first run, or this is empty and the others go on. -/
theorem rowMatches_after :
    RowMatches runs (character :: text) ↔ ∃ left ∈ after character runs, RowMatches left text := by
  induction runs with
  | nil => simp [rowMatches_nil, after]
  | cons run later ih =>
      rw [rowMatches_cons]
      constructor
      · rintro ⟨piece, rest, isMatch, laterMatch, isText⟩
        cases piece with
        | nil =>
            obtain rfl := isText
            obtain ⟨left, member, leftMatch⟩ := ih.mp laterMatch
            refine ⟨left, List.mem_append_right _ ?_, leftMatch⟩
            rwa [if_pos (matches_nil_iff.mp isMatch)]
        | cons first piece =>
            obtain ⟨rfl, rfl⟩ := List.cons.inj isText
            obtain ⟨isTaken, nextMatch⟩ := matches_cons_iff.mp isMatch
            refine ⟨run.next :: later, List.mem_append_left _ ?_,
              rowMatches_cons.mpr ⟨piece, rest, nextMatch, laterMatch, rfl⟩⟩
            rw [if_pos isTaken]
            exact List.mem_singleton_self _
      · rintro ⟨left, member, leftMatch⟩
        rcases List.mem_append.mp member with isLonger | isLater
        · split at isLonger
          next isTaken =>
            obtain rfl := List.mem_singleton.mp isLonger
            obtain ⟨piece, rest, nextMatch, laterMatch, rfl⟩ := rowMatches_cons.mp leftMatch
            exact ⟨character :: piece, rest, matches_cons_iff.mpr ⟨isTaken, nextMatch⟩, laterMatch,
              rfl⟩
          next => cases isLonger
        · split at isLater
          next isOptional =>
            exact ⟨[], character :: text, matches_nil_iff.mpr isOptional,
              ih.mpr ⟨left, isLater, leftMatch⟩, rfl⟩
          next => cases isLater

theorem rowMatches_singleton : RowMatches [run] text ↔ run.Matches text := by
  simp [rowMatches_cons, rowMatches_nil]

theorem matches_one_iff {kind : CharacterClass} :
    (one kind).Matches piece ↔
      ∃ character, kind.accepts character = true ∧ piece = [character] := by
  constructor
  · rintro ⟨accepted, atLeast, atMost⟩
    obtain ⟨character, rfl⟩ := List.length_eq_one_iff.mp (Nat.le_antisymm (atMost 1 rfl) atLeast)
    exact ⟨character, accepted character (List.mem_singleton_self _), rfl⟩
  · rintro ⟨character, accepted, rfl⟩
    exact ⟨by simpa [one] using accepted, Nat.le_refl 1, by simp [one]⟩

end PatternRun

namespace PatternItem

variable {run : PatternRun} {piece : List Char}

theorem matches_plain : (plain run).Matches piece ↔ run.Matches piece := by
  simp [Matches, alternatives, PatternRun.rowMatches_singleton]

theorem matches_group {alternatives : List (List PatternRun)} :
    (group alternatives).Matches piece ↔
      ∃ runs ∈ alternatives, PatternRun.RowMatches runs piece :=
  Iff.rfl

end PatternItem

/-! ## Threads -/

namespace PatternThread

open PatternRun

variable {thread : PatternThread} {character : Char} {text piece : List Char}
  {done pieces : List (List Char)} {runs : List PatternRun} {later : List PatternItem}

/-- Whether a thread that is given by its parts can be finished with a text, and its pieces. -/
def CanFinish (done : List (List Char)) (piece : List Char) (runs : List PatternRun)
    (later : List PatternItem) (text : List Char) (pieces : List (List Char)) : Prop :=
  ∃ own others, RowMatches runs own ∧ List.Forall₂ PatternItem.Matches later others ∧
    own ++ others.flatten = text ∧ pieces = done ++ (piece ++ own) :: others

/-- Whether a thread can be finished with a text, and its pieces. -/
def Finishes (thread : PatternThread) (text : List Char) (pieces : List (List Char)) : Prop :=
  CanFinish thread.done thread.piece thread.runs thread.later text pieces

theorem canFinish_nil_later :
    CanFinish done piece runs [] text pieces ↔
      RowMatches runs text ∧ pieces = done ++ [piece ++ text] := by
  simp [CanFinish]

/-- An item goes on, or it is empty from here on and one of the next item's alternatives begins. -/
theorem canFinish_cons_later {item : PatternItem} :
    CanFinish done piece runs (item :: later) text pieces ↔
      ∃ own rest, own ++ rest = text ∧ RowMatches runs own ∧
        ∃ next ∈ item.alternatives,
          CanFinish (done ++ [piece ++ own]) [] next later rest pieces := by
  constructor
  · rintro ⟨own, _, ownMatch, othersMatch, rfl, rfl⟩
    obtain ⟨other, others, ⟨next, member, nextMatch⟩, laterMatch, rfl⟩ :=
      List.forall₂_cons_left_iff.mp othersMatch
    refine ⟨own, other ++ others.flatten, by simp, ownMatch, next, member, other, others, nextMatch,
      laterMatch, rfl, by simp⟩
  · rintro ⟨own, _, rfl, ownMatch, next, member, other, others, nextMatch, laterMatch, rfl, rfl⟩
    exact ⟨own, other :: others, ownMatch, .cons ⟨next, member, nextMatch⟩ laterMatch, by simp,
      by simp⟩

/-- With one more character a thread can be finished exactly if one of those can to which it
leads. -/
theorem canFinish_follow :
    CanFinish done piece runs later (character :: text) pieces ↔
      ∃ thread ∈ follow character done piece runs later, thread.Finishes text pieces := by
  induction later generalizing done piece runs with
  | nil =>
      rw [canFinish_nil_later, rowMatches_after]
      constructor
      · rintro ⟨⟨left, isLeft, leftMatch⟩, rfl⟩
        exact ⟨_, List.mem_map_of_mem isLeft, canFinish_nil_later.mpr ⟨leftMatch, by simp⟩⟩
      · rintro ⟨thread, isThread, finishes⟩
        obtain ⟨left, isLeft, rfl⟩ := List.mem_map.mp isThread
        obtain ⟨leftMatch, rfl⟩ := canFinish_nil_later.mp finishes
        exact ⟨⟨left, isLeft, leftMatch⟩, by simp⟩
  | cons item later ih =>
      rw [canFinish_cons_later]
      simp only [follow, List.mem_append, List.mem_map]
      constructor
      · rintro ⟨own, rest, isText, ownMatch, next, member, finishes⟩
        cases own with
        | nil =>
            obtain rfl := isText
            rw [List.append_nil, ih] at finishes
            obtain ⟨thread, isThread, finishes⟩ := finishes
            refine ⟨thread, .inr ?_, finishes⟩
            rw [if_pos (rowMatches_empty.mp ownMatch)]
            exact List.mem_flatMap.mpr ⟨next, member, isThread⟩
        | cons first own =>
            obtain ⟨rfl, rfl⟩ := List.cons.inj isText
            obtain ⟨left, isLeft, leftMatch⟩ := rowMatches_after.mp ownMatch
            refine ⟨_, .inl ⟨left, isLeft, rfl⟩, canFinish_cons_later.mpr
              ⟨own, rest, rfl, leftMatch, next, member, ?_⟩⟩
            simpa using finishes
      · rintro ⟨thread, ⟨left, isLeft, rfl⟩ | isLater, finishes⟩
        · obtain ⟨own, rest, rfl, leftMatch, next, member, finishes⟩ :=
            canFinish_cons_later.mp finishes
          refine ⟨character :: own, rest, rfl, rowMatches_after.mpr ⟨left, isLeft, leftMatch⟩, next,
            member, ?_⟩
          simpa using finishes
        · split at isLater
          next isOptional =>
            obtain ⟨next, member, isThread⟩ := List.mem_flatMap.mp isLater
            refine ⟨[], character :: text, rfl, rowMatches_empty.mpr isOptional, next, member, ?_⟩
            rw [List.append_nil]
            exact ih.mpr ⟨thread, isThread, finishes⟩
          next => cases isLater

theorem finishes_step :
    thread.Finishes (character :: text) pieces ↔
      ∃ next ∈ thread.step character, next.Finishes text pieces :=
  canFinish_follow

/-- When the text is over, the pieces of a thread are found if there are any. -/
theorem finish?_spec (done : List (List Char)) (piece : List Char) (runs : List PatternRun)
    (later : List PatternItem) :
    match finish? done piece runs later with
    | some found => CanFinish done piece runs later [] found
    | none => ∀ pieces, ¬CanFinish done piece runs later [] pieces := by
  induction later generalizing done piece runs with
  | nil =>
      by_cases isOptional : areOptional runs = true
      · simp [finish?, isOptional, canFinish_nil_later, rowMatches_empty]
      · simp [finish?, isOptional, canFinish_nil_later, rowMatches_empty]
  | cons item later ih =>
      have fromNext (next : List PatternRun) := ih (done ++ [piece]) [] next
      rw [finish?]
      by_cases isOptional : areOptional runs = true
      · rw [if_pos isOptional]
        cases isFound : item.alternatives.findSome?
            fun runs => finish? (done ++ [piece]) [] runs later with
        | some found =>
            obtain ⟨next, member, isFinish⟩ := List.exists_of_findSome?_eq_some isFound
            have finishes := fromNext next
            rw [isFinish] at finishes
            refine canFinish_cons_later.mpr
              ⟨[], [], rfl, rowMatches_empty.mpr isOptional, next, member, ?_⟩
            rwa [List.append_nil]
        | none =>
            intro pieces finishes
            obtain ⟨own, rest, isNil, _, next, member, finishes⟩ :=
              canFinish_cons_later.mp finishes
            obtain ⟨rfl, rfl⟩ := List.append_eq_nil_iff.mp isNil
            have never := fromNext next
            rw [List.findSome?_eq_none_iff.mp isFound next member] at never
            rw [List.append_nil] at finishes
            exact never pieces finishes
      · rw [if_neg isOptional]
        intro pieces finishes
        obtain ⟨own, rest, isNil, ownMatch, _⟩ := canFinish_cons_later.mp finishes
        obtain ⟨rfl, rfl⟩ := List.append_eq_nil_iff.mp isNil
        exact isOptional (rowMatches_empty.mp ownMatch)

/-! ## Following all threads at once -/

/-- Threads that go on alike can be finished with the same texts. -/
theorem exists_finishes_of_agrees {other : PatternThread} (agrees : thread.agrees other = true)
    (finishes : thread.Finishes text pieces) : ∃ others, other.Finishes text others := by
  simp only [PatternThread.agrees, Bool.and_eq_true, decide_eq_true_iff] at agrees
  obtain ⟨own, others, ownMatch, othersMatch, isText, _⟩ := finishes
  rw [agrees.1] at ownMatch
  rw [agrees.2] at othersMatch
  exact ⟨_, own, others, ownMatch, othersMatch, isText, rfl⟩

theorem agrees_self : thread.agrees thread = true := by simp [agrees]

theorem firstOfEach_concat (threads : List PatternThread) :
    firstOfEach (threads ++ [thread]) =
      if (firstOfEach threads).any thread.agrees then firstOfEach threads
      else firstOfEach threads ++ [thread] := by
  rw [firstOfEach, List.foldl_concat, ← firstOfEach]

theorem mem_of_mem_firstOfEach {threads : List PatternThread}
    (isKept : thread ∈ firstOfEach threads) : thread ∈ threads := by
  induction threads using List.reverseRecOn with
  | nil => exact isKept
  | append_singleton former last ih =>
      rw [firstOfEach_concat] at isKept
      split at isKept
      next => exact List.mem_append_left _ (ih isKept)
      next =>
        rcases List.mem_append.mp isKept with isFormer | isLast
        · exact List.mem_append_left _ (ih isFormer)
        · exact List.mem_append_right _ isLast

/-- Of every thread one is kept that goes on alike. -/
theorem exists_agrees_firstOfEach {threads : List PatternThread} (isMember : thread ∈ threads) :
    ∃ kept ∈ firstOfEach threads, thread.agrees kept = true := by
  induction threads using List.reverseRecOn with
  | nil => cases isMember
  | append_singleton former last ih =>
      rw [firstOfEach_concat]
      rcases List.mem_append.mp isMember with isFormer | isLast
      · obtain ⟨kept, isKept, agrees⟩ := ih isFormer
        refine ⟨kept, ?_, agrees⟩
        split
        · exact isKept
        · exact List.mem_append_left _ isKept
      · obtain rfl := List.mem_singleton.mp isLast
        split
        next known => exact List.any_eq_true.mp known
        next => exact ⟨thread, List.mem_append_right _ isLast, agrees_self⟩

variable {threads : List PatternThread}

/-- A thread that is reached goes on as one of those that were there. -/
theorem exists_finishes_of_advance (isReached : thread ∈ advance threads character)
    (finishes : thread.Finishes text pieces) :
    ∃ former ∈ threads, former.Finishes (character :: text) pieces := by
  obtain ⟨former, isFormer, isNext⟩ := List.mem_flatMap.mp (mem_of_mem_firstOfEach isReached)
  exact ⟨former, isFormer, finishes_step.mpr ⟨thread, isNext, finishes⟩⟩

/-- If a thread can be finished then one that is reached can, if with other pieces. -/
theorem exists_advance_finishes (isMember : thread ∈ threads)
    (finishes : thread.Finishes (character :: text) pieces) :
    ∃ reached ∈ advance threads character, ∃ others, reached.Finishes text others := by
  obtain ⟨next, isNext, finishes⟩ := finishes_step.mp finishes
  obtain ⟨kept, isKept, agrees⟩ :=
    exists_agrees_firstOfEach (List.mem_flatMap.mpr ⟨thread, isMember, isNext⟩)
  exact ⟨kept, isKept, exists_finishes_of_agrees agrees finishes⟩

theorem exists_finishes_of_foldl (isReached : thread ∈ text.foldl advance threads)
    (finishes : thread.Finishes [] pieces) : ∃ former ∈ threads, former.Finishes text pieces := by
  induction text generalizing threads with
  | nil => exact ⟨thread, isReached, finishes⟩
  | cons character text ih =>
      obtain ⟨next, isNext, finishes⟩ := ih isReached
      exact exists_finishes_of_advance isNext finishes

theorem exists_foldl_finishes (isMember : thread ∈ threads)
    (finishes : thread.Finishes text pieces) :
    ∃ reached ∈ text.foldl advance threads, ∃ others, reached.Finishes [] others := by
  induction text generalizing threads thread pieces with
  | nil => exact ⟨thread, isMember, pieces, finishes⟩
  | cons character text ih =>
      obtain ⟨next, isNext, others, finishes⟩ := exists_advance_finishes isMember finishes
      exact ih isNext finishes

end PatternThread

/-! ## Cutting texts -/

namespace Pattern

variable {pattern : Pattern} {text : List Char} {pieces : List (List Char)}

/-- The thread with which a text begins has an empty piece in front of those of the pattern. -/
theorem finishes_start :
    pattern.start.Finishes text pieces ↔ ∃ cut, pattern.Cuts text cut ∧ pieces = [] :: cut := by
  simp [start, PatternThread.Finishes, PatternThread.CanFinish, PatternRun.rowMatches_nil, Cuts,
    and_assoc]

/-- A text is cut into pieces that a pattern asks for if there are any. -/
theorem cut?_spec (pattern : Pattern) (text : List Char) :
    match pattern.cut? text with
    | some pieces => pattern.Cuts text pieces
    | none => ∀ pieces, ¬pattern.Cuts text pieces := by
  rw [cut?]
  cases isFound : (text.foldl PatternThread.advance [pattern.start]).findSome?
      PatternThread.pieces? with
  | some pieces =>
      obtain ⟨thread, isReached, isFinish⟩ := List.exists_of_findSome?_eq_some isFound
      have finishes := PatternThread.finish?_spec thread.done thread.piece thread.runs thread.later
      rw [← PatternThread.pieces?, isFinish] at finishes
      obtain ⟨former, isStart, finishes⟩ :=
        PatternThread.exists_finishes_of_foldl isReached finishes
      obtain rfl := List.mem_singleton.mp isStart
      obtain ⟨cut, isCut, rfl⟩ := finishes_start.mp finishes
      exact isCut
  | none =>
      intro pieces isCut
      obtain ⟨reached, isReached, others, finishes⟩ := PatternThread.exists_foldl_finishes
        (List.mem_singleton_self pattern.start) (finishes_start.mpr ⟨pieces, isCut, rfl⟩)
      have never :=
        PatternThread.finish?_spec reached.done reached.piece reached.runs reached.later
      rw [← PatternThread.pieces?, List.findSome?_eq_none_iff.mp isFound reached isReached] at never
      exact never others finishes

/-- A pattern matches the texts that can be cut as it asks for. -/
theorem matchesText_iff {text : String} :
    pattern.matchesText text = true ↔ ∃ pieces, pattern.Cuts text.toList pieces := by
  have spec := pattern.cut?_spec text.toList
  rw [matchesText]
  cases isCut : pattern.cut? text.toList with
  | some pieces =>
      rw [isCut] at spec
      exact iff_of_true rfl ⟨pieces, spec⟩
  | none =>
      rw [isCut] at spec
      exact iff_of_false Bool.false_ne_true (not_exists.mpr spec)

end Pattern

end Waveform
