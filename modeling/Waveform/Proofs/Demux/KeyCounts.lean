import Mathlib.Data.List.Count
import Waveform.Proofs.Channel.KeyTexts
import Waveform.Proofs.Demux.Accounting
import Waveform.Proofs.Demux.Isolation

/-!
# Records counted by key

Records that are kept are counted under the texts of their keys. The count under the text of a key
is that of all records kept under keys that share the text, and so it is the count of the key
exactly if records are kept under no other such key.
-/

namespace Waveform

/-! ## Tallies -/

namespace Tally

/-- Whether the names of a tally are in strictly ascending order. -/
def Ordered (tally : Tally) : Prop := tally.Pairwise fun first second => first.1 < second.1

theorem mem_count {name : String} {tally : Tally} {entry : String × Nat}
    (member : entry ∈ count name tally) :
    entry.1 = name ∨ ∃ other ∈ tally, other.1 = entry.1 := by
  induction tally with
  | nil => exact .inl (by rw [List.mem_singleton.mp member])
  | cons first rest ih =>
      simp only [count] at member
      split at member
      next =>
        rcases List.mem_cons.mp member with rfl | isOther
        · exact .inl rfl
        · exact .inr ⟨entry, isOther, rfl⟩
      next =>
        split at member
        next same =>
          rcases List.mem_cons.mp member with rfl | isOther
          · exact .inl same.symm
          · exact .inr ⟨entry, List.mem_cons_of_mem first isOther, rfl⟩
        next =>
          rcases List.mem_cons.mp member with rfl | isOther
          · exact .inr ⟨_, List.mem_cons_self, rfl⟩
          · rcases ih isOther with isName | ⟨other, isRest, sameName⟩
            · exact .inl isName
            · exact .inr ⟨other, List.mem_cons_of_mem first isRest, sameName⟩

theorem Ordered.count {tally : Tally} (ordered : tally.Ordered) (name : String) :
    (Tally.count name tally).Ordered := by
  induction tally with
  | nil => exact List.pairwise_singleton _ _
  | cons first rest ih =>
      obtain ⟨isFirst, restOrdered⟩ := List.pairwise_cons.mp ordered
      simp only [Tally.count]
      split
      next before =>
        refine List.pairwise_cons.mpr ⟨?_, ordered⟩
        exact List.forall_mem_cons.mpr
          ⟨before, fun entry member => before.trans (isFirst entry member)⟩
      next notBefore =>
        split
        next => exact List.pairwise_cons.mpr ⟨isFirst, restOrdered⟩
        next different =>
          refine List.pairwise_cons.mpr ⟨fun entry member => ?_, ih restOrdered⟩
          rcases mem_count member with sameName | ⟨other, isRest, sameName⟩
          · have behind := lt_of_le_of_ne (not_lt.mp notBefore) (Ne.symm different)
            exact sameName ▸ behind
          · exact sameName ▸ isFirst other isRest

/-- A name that stands before all names of a tally has not been counted. -/
theorem timesOf_eq_zero {tally : Tally} {name : String}
    (before : ∀ entry ∈ tally, name < entry.1) : tally.timesOf name = 0 := by
  induction tally with
  | nil => rfl
  | cons first rest ih =>
      obtain ⟨isFirst, isRest⟩ := List.forall_mem_cons.mp before
      rw [timesOf, if_neg isFirst.ne, ih isRest]

theorem timesOf_count {tally : Tally} (ordered : tally.Ordered) (name other : String) :
    (Tally.count name tally).timesOf other =
      tally.timesOf other + if name = other then 1 else 0 := by
  induction tally with
  | nil => simp only [Tally.count, timesOf, eq_comm, Nat.zero_add]
  | cons first rest ih =>
      obtain ⟨isFirst, restOrdered⟩ := List.pairwise_cons.mp ordered
      have counted := ih restOrdered
      simp only [Tally.count]
      split
      next before =>
        have notYet : timesOf (first :: rest) name = 0 :=
          timesOf_eq_zero (List.forall_mem_cons.mpr
            ⟨before, fun entry member => before.trans (isFirst entry member)⟩)
        by_cases same : name = other
        · subst same
          rw [timesOf, if_pos rfl, if_pos rfl, notYet]
        · rw [timesOf, if_neg (Ne.symm same), if_neg same, Nat.add_zero]
      next =>
        split
        next isName =>
          rw [timesOf, timesOf, isName]
          by_cases same : first.1 = other
          · rw [if_pos same.symm, if_pos same.symm, if_pos same]
          · rw [if_neg (Ne.symm same), if_neg (Ne.symm same), if_neg same, Nat.add_zero]
        next different =>
          rw [timesOf, timesOf]
          by_cases isOther : other = first.1
          · rw [if_pos isOther, if_pos isOther, if_neg (isOther ▸ different), Nat.add_zero]
          · rw [if_neg isOther, if_neg isOther, counted]

theorem ordered_ofNames (names : List String) : (ofNames names).Ordered := by
  induction names using List.reverseRecOn with
  | nil => exact List.Pairwise.nil
  | append_singleton names name ih =>
      rw [ofNames_append_singleton]
      exact ih.count name

/-- A name has been counted as often as it occurs among the names. -/
theorem timesOf_ofNames (names : List String) (name : String) :
    (ofNames names).timesOf name = names.count name := by
  induction names using List.reverseRecOn with
  | nil => rfl
  | append_singleton names other ih =>
      rw [ofNames_append_singleton, timesOf_count (ordered_ofNames names), ih, List.count_append,
        List.count_singleton]
      simp

end Tally

/-! ## Records under keys -/

namespace Selection

/-- The key under which a record is kept. -/
def key? (selection : Selection) (bytes : List UInt8) : Option TrackKey :=
  match Verdict.ofBytes selection bytes with
  | .kept _ key => some key
  | _ => none

/-- The keys of the records that are kept, one for each record. -/
def keptKeys (selection : Selection) (buffers : List (List UInt8)) : List TrackKey :=
  buffers.filterMap selection.key?

theorem legal_of_mem_keptKeys {selection : Selection} {buffers : List (List UInt8)}
    {key : TrackKey} (member : key ∈ selection.keptKeys buffers) :
    ∃ rate, (rate, key.interval) ∈ SampleRate.table := by
  obtain ⟨bytes, _, isKey⟩ := List.mem_filterMap.mp member
  unfold key? at isKey
  split at isKey
  next record other verdict =>
    obtain rfl := Option.some.inj isKey
    exact SampleRate.exists_mem_table_of_interval? (Verdict.interval?_of_kept verdict)
  next => cases isKey

end Selection

/-- Keys of which one is counted with all that share its text are counted alone exactly if no other
one shares it. -/
theorem countP_sharesText_eq_count_iff (keys : List TrackKey) (key : TrackKey) :
    keys.countP (fun other => other.SharesText key) = keys.count key ↔
      ∀ other ∈ keys, other.SharesText key → other = key := by
  have alone : (keys.filter (· == key)).countP (fun other => other.SharesText key) =
      keys.count key := by
    rw [List.count, List.countP_eq_length_filter, List.countP_eq_length_filter]
    refine congrArg List.length (List.filter_eq_self.mpr fun other member => ?_)
    obtain rfl := beq_iff_eq.mp (List.mem_filter.mp member).2
    exact decide_eq_true (TrackKey.SharesText.refl other)
  rw [List.countP_eq_countP_filter_add keys _ (· == key), alone, Nat.add_eq_left,
    List.countP_eq_zero]
  simp only [List.mem_filter, Bool.not_eq_true', beq_eq_false_iff_ne, decide_eq_true_eq, and_imp]
  constructor
  · intro noOther other member shared
    by_contra different
    exact noOther other member different shared
  · intro onlyKey other member different shared
    exact different (onlyKey other member shared)

namespace Demux

theorem records_receiveRecord (demux : Demux) (bytes : List UInt8) :
    (demux.receiveRecord bytes).counters.records =
      match demux.selection.key? bytes with
      | none => demux.counters.records
      | some key => Tally.count key.text demux.counters.records := by
  simp only [receiveRecord, Selection.key?]
  cases Verdict.ofBytes demux.selection bytes <;> rfl

/-- The records of a run are counted under the texts of their keys. -/
theorem records_receiveRecords (demux : Demux) (buffers : List (List UInt8)) :
    (demux.receiveRecords buffers).counters.records =
      ((demux.selection.keptKeys buffers).map TrackKey.text).foldl
        (fun tally name => Tally.count name tally) demux.counters.records := by
  induction buffers generalizing demux with
  | nil => rfl
  | cons bytes later ih =>
      rw [receiveRecords_cons, ih, records_receiveRecord, selection_receiveRecord]
      simp only [Selection.keptKeys, List.filterMap_cons]
      cases demux.selection.key? bytes <;> rfl

/-- Finishing leaves the records as they are counted. -/
theorem records_finish {demux : Demux} {split : Split} (isFinished : demux.finish = .ok split) :
    split.counters.records = demux.counters.records := by
  obtain ⟨finished, _, rfl⟩ := finish_eq_ok_iff.mp isFinished
  rfl

end Demux

/-- The count under the text of a key is that of all keys that share the text. -/
theorem Tally.timesOf_ofNames_text {keys : List TrackKey}
    (legal : ∀ key ∈ keys, ∃ rate, (rate, key.interval) ∈ SampleRate.table) {key : TrackKey}
    (member : key ∈ keys) :
    (Tally.ofNames (keys.map TrackKey.text)).timesOf key.text =
      keys.countP fun other => other.SharesText key := by
  rw [timesOf_ofNames, List.count, List.countP_map]
  refine List.countP_congr fun other isOther => ?_
  obtain ⟨rate, isLegal⟩ := legal key member
  obtain ⟨otherRate, otherLegal⟩ := legal other isOther
  simp [TrackKey.text_eq_text_iff otherLegal isLegal]

namespace StoredDemux

variable {blockSizes : List Nat} {pools : List Pool} {others : List (StoredTrace × Trace)}
  {pool : Nat}

/-- The count under the text of a key is that of the records kept under any key of this text. It is
the count of the key alone exactly if no records are kept under another key that shares the text; so
it is if all codes are separable and all intervals shorter than a hundred seconds. -/
theorem splitRecords_counts (selection : Selection) (tolerance : Tolerance)
    (holds : Holds blockSizes pools others) (inside : pool < blockSizes.length)
    (buffers : List (List UInt8)) :
    ∃ split segments changed,
      (start selection tolerance pool).splitRecords buffers pools =
        (.ok (split, segments), changed) ∧
      ∀ key ∈ selection.keptKeys buffers,
        split.counters.records.timesOf key.text =
          (selection.keptKeys buffers).countP (fun other => other.SharesText key) ∧
        (split.counters.records.timesOf key.text = (selection.keptKeys buffers).count key ↔
          ∀ other ∈ selection.keptKeys buffers, other.SharesText key → other = key) ∧
        ((∀ other ∈ selection.keptKeys buffers,
            other.channel.Separable ∧ other.interval < 100000000) →
          split.counters.records.timesOf key.text = (selection.keptKeys buffers).count key) := by
  obtain ⟨split, segments, changed, isSplit, isPlain⟩ :=
    splitRecords_eq selection tolerance holds inside buffers
  refine ⟨split, segments, changed, isSplit, fun key member => ?_⟩
  have counted : split.counters.records.timesOf key.text =
      (selection.keptKeys buffers).countP fun other => other.SharesText key := by
    rw [Demux.records_finish isPlain, Demux.records_receiveRecords]
    exact Tally.timesOf_ofNames_text (fun _ => Selection.legal_of_mem_keptKeys) member
  rw [counted]
  have alone := countP_sharesText_eq_count_iff (selection.keptKeys buffers) key
  refine ⟨rfl, alone, fun separable => alone.mpr fun other isOther shared => ?_⟩
  obtain ⟨otherSeparable, short⟩ := separable other isOther
  exact shared.eq otherSeparable (separable key member).1 short

/-- A record of channel IU_ANMO 00-BHZ with the two bytes of its rate. -/
def slowRecord (high low : UInt8) : List UInt8 := (Demux.briefRecord.set 32 high).set 33 low

/-- A record every hundred seconds and one every thousand seconds. -/
def slowRecords : List (List UInt8) := [slowRecord 255 156, slowRecord 252 24]

/-- The key of records of that channel with an interval. -/
def slowKey (interval : Int) : TrackKey := ⟨⟨"IU", "ANMO", "00", "BHZ"⟩, interval⟩

theorem keptKeys_slowRecords :
    Selection.everything.keptKeys slowRecords = [slowKey 100000000, slowKey 1000000000] := by
  decide +kernel

/-- Each of two keys has one record, and two are counted under their text. -/
theorem splitRecords_counts_slow :
    ∃ split segments changed,
      (start Selection.everything Tolerance.standard 0).splitRecords slowRecords [narrowPool] =
        (.ok (split, segments), changed) ∧
      (Selection.everything.keptKeys slowRecords).count (slowKey 100000000) = 1 ∧
      (slowKey 100000000).text = "IU_ANMO 00-BHZ (0.0 Hz)" ∧
      split.counters.records.timesOf "IU_ANMO 00-BHZ (0.0 Hz)" = 2 := by
  have isText : (slowKey 100000000).text = "IU_ANMO 00-BHZ (0.0 Hz)" := by decide +kernel
  obtain ⟨split, segments, changed, isSplit, counts⟩ :=
    splitRecords_counts Selection.everything Tolerance.standard holds_narrowPool
      (by decide : 0 < 1) slowRecords
  rw [keptKeys_slowRecords] at counts
  obtain ⟨counted, _⟩ := counts (slowKey 100000000) List.mem_cons_self
  refine ⟨split, segments, changed, isSplit, ?_, isText, ?_⟩
  · rw [keptKeys_slowRecords]
    decide
  · rw [← isText, counted]
    decide

end StoredDemux

end Waveform
