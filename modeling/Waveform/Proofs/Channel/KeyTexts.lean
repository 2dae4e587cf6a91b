import Mathlib.Data.List.Basic
import Waveform.Channel.TrackKey

/-!
# What the texts of keys tell apart

The text of a key is that of its channel followed by its rate to one decimal place. It tells the
legal intervals apart, except for the two longest, whose rates both read as zero. The text of a
channel tells its codes apart as long as these keep clear of the characters that part them.
-/

namespace Waveform

/-- Lists are cut at their first separator in one way. -/
theorem eq_of_append_cons_eq {α : Type} {separator : α} {first second firstRest secondRest : List α}
    (notFirst : separator ∉ first) (notSecond : separator ∉ second)
    (same : first ++ separator :: firstRest = second ++ separator :: secondRest) :
    first = second ∧ firstRest = secondRest := by
  rcases List.append_eq_append_iff.mp same with ⟨more, rfl, isRest⟩ | ⟨more, rfl, isRest⟩
  · cases more with
    | nil => exact ⟨(List.append_nil first).symm, (List.cons.inj isRest).2⟩
    | cons item more =>
        obtain rfl := (List.cons.inj isRest).1
        exact absurd List.mem_append_cons_self notSecond
  · cases more with
    | nil => exact ⟨List.append_nil second, (List.cons.inj isRest).2.symm⟩
    | cons item more =>
        obtain rfl := (List.cons.inj isRest).1
        exact absurd List.mem_append_cons_self notFirst

/-- Lists are cut at their last separator in one way. -/
theorem eq_of_append_cons_eq_last {α : Type} {separator : α}
    {first second firstRest secondRest : List α} (notFirst : separator ∉ firstRest)
    (notSecond : separator ∉ secondRest)
    (same : first ++ separator :: firstRest = second ++ separator :: secondRest) :
    first = second ∧ firstRest = secondRest := by
  have reversed := congrArg List.reverse same
  simp only [List.reverse_append, List.reverse_cons, List.append_assoc, List.singleton_append]
    at reversed
  obtain ⟨sameRest, sameFirst⟩ :=
    eq_of_append_cons_eq (mt List.mem_reverse.mp notFirst) (mt List.mem_reverse.mp notSecond)
      reversed
  exact ⟨List.reverse_inj.mp sameFirst, List.reverse_inj.mp sameRest⟩

/-! ## Channels -/

namespace ChannelId

/-- Whether the codes of a channel keep clear of the characters behind them in its text. -/
structure Separable (id : ChannelId) : Prop where
  network : '_' ∉ id.network.toList
  station : ' ' ∉ id.station.toList
  location : id.location = blankLocation ∨ id.location ≠ "" ∧ '-' ∉ id.location.toList

theorem toList_text (id : ChannelId) :
    id.text.toList =
      id.network.toList ++ '_' :: (id.station.toList ++ ' ' ::
        (id.location.toList ++ '-' :: id.channel.toList)) := by
  simp [text, String.toList_append]

/-- A blank location cannot be taken for one without hyphens. -/
theorem blankLocation_append_ne {location rest otherRest : List Char} (nonempty : location ≠ [])
    (noHyphen : '-' ∉ location) : blankLocation.toList ++ rest ≠ location ++ otherRest := by
  intro same
  obtain ⟨character, others, rfl⟩ := List.exists_cons_of_ne_nil nonempty
  exact noHyphen ((List.cons.inj same).1 ▸ List.mem_cons_self)

/-- A location that is followed by a hyphen and a channel can be told from them. -/
theorem eq_of_location_eq {first second : ChannelId} (firstSeparable : first.Separable)
    (secondSeparable : second.Separable)
    (same : first.location.toList ++ '-' :: first.channel.toList =
      second.location.toList ++ '-' :: second.channel.toList) :
    first.location = second.location ∧ first.channel = second.channel := by
  rw [← String.toList_inj, ← String.toList_inj]
  have nonempty {location : String} (isSome : location ≠ "") : location.toList ≠ [] := by
    simpa using isSome
  rcases firstSeparable.location with isBlank | ⟨firstSome, firstClear⟩ <;>
    rcases secondSeparable.location with otherBlank | ⟨secondSome, secondClear⟩
  · rw [isBlank, otherBlank] at same ⊢
    exact ⟨rfl, (List.cons.inj (List.append_cancel_left same)).2⟩
  · rw [isBlank] at same
    exact absurd same (blankLocation_append_ne (nonempty secondSome) secondClear)
  · rw [otherBlank] at same
    exact absurd same.symm (blankLocation_append_ne (nonempty firstSome) firstClear)
  · exact eq_of_append_cons_eq firstClear secondClear same

/-- Channels of the same text are the same. -/
theorem eq_of_text_eq {first second : ChannelId} (firstSeparable : first.Separable)
    (secondSeparable : second.Separable) (same : first.text = second.text) : first = second := by
  have sameCharacters := congrArg String.toList same
  rw [toList_text, toList_text] at sameCharacters
  obtain ⟨sameNetwork, sameBehind⟩ :=
    eq_of_append_cons_eq firstSeparable.network secondSeparable.network sameCharacters
  obtain ⟨sameStation, sameRest⟩ :=
    eq_of_append_cons_eq firstSeparable.station secondSeparable.station sameBehind
  obtain ⟨sameLocation, sameChannel⟩ :=
    eq_of_location_eq firstSeparable secondSeparable sameRest
  cases first
  cases second
  rw [mk.injEq]
  exact ⟨String.toList_inj.mp sameNetwork, String.toList_inj.mp sameStation, sameLocation,
    sameChannel⟩

/-- An underscore in a code can be taken for the one between network and station. -/
example : text ⟨"A", "_B", "00", "BHZ"⟩ = text ⟨"A_", "B", "00", "BHZ"⟩ := by decide

end ChannelId

/-! ## Keys -/

namespace TrackKey

/-- The text of the rate of an interval. -/
def rateText (interval : Int) : String :=
  Decimal.fixedText ((SampleRate.ofInterval? interval).getD (1e6 / Float.ofInt interval)) 1

theorem toList_text (key : TrackKey) :
    key.text.toList =
      (key.channel.text.toList ++ [' ']) ++
        '(' :: ((rateText key.interval).toList ++ [' ', 'H', 'z', ')']) := by
  have isText : key.text = key.channel.text ++ " (" ++ rateText key.interval ++ " Hz)" := rfl
  simp [isText, String.toList_append]

/-- Whether the rates of two intervals read the same: they are the same, or neither is shorter than
a hundred seconds. -/
def ReadTheSame (first second : Int) : Prop :=
  first = second ∨ 100000000 ≤ first ∧ 100000000 ≤ second

instance (first second : Int) : Decidable (ReadTheSame first second) := by
  unfold ReadTheSame
  infer_instance

theorem rateText_eq_iff {first second : Int} {firstRate secondRate : Float}
    (firstLegal : (firstRate, first) ∈ SampleRate.table)
    (secondLegal : (secondRate, second) ∈ SampleRate.table) :
    rateText first = rateText second ↔ ReadTheSame first second := by
  have isDecided : ∀ entry ∈ SampleRate.table, ∀ other ∈ SampleRate.table,
      rateText entry.2 = rateText other.2 ↔ ReadTheSame entry.2 other.2 := by
    decide +kernel
  exact isDecided (firstRate, first) firstLegal (secondRate, second) secondLegal

theorem notMem_rateText {interval : Int} {rate : Float}
    (legal : (rate, interval) ∈ SampleRate.table) :
    '(' ∉ (rateText interval).toList := by
  have isDecided : ∀ entry ∈ SampleRate.table, '(' ∉ (rateText entry.2).toList := by
    decide +kernel
  exact isDecided (rate, interval) legal

/-- Whether two keys cannot be told apart by their texts. -/
def SharesText (first second : TrackKey) : Prop :=
  first.channel.text = second.channel.text ∧ ReadTheSame first.interval second.interval

instance (first second : TrackKey) : Decidable (first.SharesText second) := by
  unfold SharesText
  infer_instance

theorem SharesText.refl (key : TrackKey) : key.SharesText key := ⟨rfl, .inl rfl⟩

/-- Keys of shorter intervals whose channels have separable codes share no text. -/
theorem SharesText.eq {first second : TrackKey} (shared : first.SharesText second)
    (firstSeparable : first.channel.Separable) (secondSeparable : second.channel.Separable)
    (short : first.interval < 100000000) : first = second := by
  obtain ⟨sameText, sameRate⟩ := shared
  have sameInterval : first.interval = second.interval :=
    sameRate.resolve_right fun long => Int.not_lt.mpr long.1 short
  cases first
  cases second
  rw [mk.injEq]
  exact ⟨ChannelId.eq_of_text_eq firstSeparable secondSeparable sameText, sameInterval⟩

/-- Keys of legal intervals have the same text exactly if they share it. -/
theorem text_eq_text_iff {first second : TrackKey} {firstRate secondRate : Float}
    (firstLegal : (firstRate, first.interval) ∈ SampleRate.table)
    (secondLegal : (secondRate, second.interval) ∈ SampleRate.table) :
    first.text = second.text ↔ first.SharesText second := by
  rw [SharesText, ← rateText_eq_iff firstLegal secondLegal]
  constructor
  · intro same
    have sameCharacters := congrArg String.toList same
    rw [toList_text, toList_text] at sameCharacters
    have notBehind {interval : Int} {rate : Float} (legal : (rate, interval) ∈ SampleRate.table) :
        '(' ∉ (rateText interval).toList ++ [' ', 'H', 'z', ')'] := by
      simp [notMem_rateText legal]
    obtain ⟨sameChannel, sameRate⟩ :=
      eq_of_append_cons_eq_last (notBehind firstLegal) (notBehind secondLegal) sameCharacters
    exact ⟨String.toList_inj.mp (List.append_cancel_right sameChannel),
      String.toList_inj.mp (List.append_cancel_right sameRate)⟩
  · rintro ⟨sameChannel, sameRate⟩
    rw [← String.toList_inj, toList_text, toList_text, sameChannel, sameRate]

end TrackKey

end Waveform
