import Mathlib.Data.List.Induction
import Mathlib.Data.List.Perm.Basic
import Mathlib.Data.String.Basic
import Waveform.Proofs.Demux.Tracks

/-!
# Accounting for blocks

What the blocks of a run count for, said of the blocks alone: their bytes, and each record in
exactly one class, which the first check that it fails decides. The counters of a run come to this
in whatever order the blocks are received.
-/

namespace Waveform

/-! ## Tallies -/

namespace Tally

/-- A tally in which some names have been counted. -/
def ofNames (names : List String) : Tally :=
  names.foldl (fun tally name => count name tally) []

@[simp] theorem ofNames_append_singleton (names : List String) (name : String) :
    ofNames (names ++ [name]) = count name (ofNames names) := by
  simp [ofNames]

theorem total_count (name : String) (tally : Tally) :
    (count name tally).total = tally.total + 1 := by
  induction tally with
  | nil => rfl
  | cons entry rest ih =>
      simp only [total] at ih
      simp only [count, total]
      split
      next => simp only [totalOf_cons]; omega
      next =>
        split
        next => simp only [totalOf_cons]; omega
        next => simp only [totalOf_cons, ih]; omega

/-- It makes no difference which of two names is counted first. -/
theorem count_comm (first second : String) (tally : Tally) :
    count first (count second tally) = count second (count first tally) := by
  -- In each order of the two names and that of the first entry, both sides are the same list.
  induction tally with
  | nil => grind [count]
  | cons entry rest ih => grind [count]

instance : RightCommutative fun (tally : Tally) name => count name tally where
  right_comm tally first second := (count_comm first second tally).symm

theorem ofNames_perm {names others : List String} (isPerm : names.Perm others) :
    ofNames names = ofNames others :=
  isPerm.foldl_eq _

end Tally

/-! ## Classes of records -/

/-- What a record is counted as. -/
inductive RecordClass where
  | corrupt
  | heartbeat
  | filtered
  | illegalRate
  | kept
deriving DecidableEq

namespace RecordClass

/-- The classes of records that fail a check, in the order of the checks. -/
def failing : List RecordClass := [.corrupt, .heartbeat, .filtered, .illegalRate]

/-- Whether the bytes of a record pass the check that keeps them out of a class: they decode, they
announce samples, their channel is selected, their rate is legal. -/
def passes (selection : Selection) (bytes : List UInt8) (recordClass : RecordClass) : Bool :=
  match Record.decode bytes, recordClass with
  | _, .kept => true
  | .error _, _ => false
  | .ok _, .corrupt => true
  | .ok record, .heartbeat => record.header.sampleCount ≠ 0
  | .ok record, .filtered => selection.selects record.channel.normal
  | .ok record, .illegalRate => (SampleRate.interval? record.header.sampleRate).isSome

/-- The class of the first check that a record fails. -/
def ofBytes (selection : Selection) (bytes : List UInt8) : RecordClass :=
  (failing.find? fun recordClass => !passes selection bytes recordClass).getD .kept

end RecordClass

/-- The class of records with a verdict. -/
def Verdict.recordClass : Verdict → RecordClass
  | .corrupt _ => .corrupt
  | .heartbeat => .heartbeat
  | .filtered _ => .filtered
  | .illegalRate _ => .illegalRate
  | .kept _ _ => .kept

theorem Verdict.recordClass_ofBytes (selection : Selection) (bytes : List UInt8) :
    (Verdict.ofBytes selection bytes).recordClass = RecordClass.ofBytes selection bytes := by
  simp only [ofBytes, RecordClass.ofBytes, RecordClass.failing]
  cases decoded : Record.decode bytes with
  | error error => simp [recordClass, RecordClass.passes, decoded]
  | ok record =>
      by_cases isEmpty : record.header.sampleCount = 0
      · simp [recordClass, RecordClass.passes, decoded, Record.isHeartbeat, isEmpty]
      cases rejected : selection.rejectedBy record.channel.normal with
      | some code =>
          simp [recordClass, RecordClass.passes, decoded, Record.isHeartbeat, isEmpty, rejected,
            Selection.selects]
      | none =>
          cases legal : SampleRate.interval? record.header.sampleRate <;>
            simp [recordClass, RecordClass.passes, decoded, Record.isHeartbeat, isEmpty, rejected,
              Selection.selects, legal]

namespace Counters

/-- How many records of a class have been counted. -/
def inClass (counters : Counters) : RecordClass → Nat
  | .corrupt => counters.corrupt
  | .heartbeat => counters.heartbeats
  | .filtered => counters.filtered
  | .illegalRate => counters.illegalRates
  | .kept => counters.kept

/-- The counters without those that depend on how the records of a track follow each other. -/
def settled (counters : Counters) : Counters :=
  { counters with gaps := 0, overlaps := 0, timingCorrections := 0 }

@[simp] theorem inClass_settled (counters : Counters) (recordClass : RecordClass) :
    counters.settled.inClass recordClass = counters.inClass recordClass := by
  cases recordClass <;> rfl

end Counters

namespace Selection

/-- How many of some records are in a class. -/
def countOf (selection : Selection) (records : List (List UInt8)) (recordClass : RecordClass) :
    Nat :=
  records.countP fun bytes => RecordClass.ofBytes selection bytes = recordClass

/-- The text of the key under which a record is kept. -/
def keyText? (selection : Selection) (bytes : List UInt8) : Option String :=
  match Verdict.ofBytes selection bytes with
  | .kept _ key => some key.text
  | _ => none

/-- Whether a record is kept without its samples. -/
def keepsUndecoded (selection : Selection) (bytes : List UInt8) : Bool :=
  match Verdict.ofBytes selection bytes with
  | .kept record _ => !record.samples.isOk
  | _ => false

end Selection

/-- The record of a block. -/
def StreamBlock.record? (block : StreamBlock) : Option (List UInt8) :=
  match block.content with
  | .record bytes => some bytes
  | _ => none

/-- What some blocks count for. -/
def Counters.ofBlocks (selection : Selection) (blocks : List StreamBlock) : Counters :=
  let records := blocks.filterMap StreamBlock.record?
  { bytes := totalOf (fun block => block.bytes.length + block.skipped) blocks
    skippedBytes := totalOf StreamBlock.skipped blocks
    kept := selection.countOf records .kept
    discarded := records.countP fun bytes => RecordClass.ofBytes selection bytes ≠ .kept
    filtered := selection.countOf records .filtered
    heartbeats := selection.countOf records .heartbeat
    illegalRates := selection.countOf records .illegalRate
    corrupt := selection.countOf records .corrupt
    decodeFailures := records.countP selection.keepsUndecoded
    gaps := 0
    overlaps := 0
    timingCorrections := 0
    records := Tally.ofNames (records.filterMap selection.keyText?) }

namespace Counters

/-- Count a record that follows no other one of its track. -/
def addRecord (counters : Counters) (selection : Selection) (bytes : List UInt8) : Counters :=
  match Verdict.ofBytes selection bytes with
  | .kept record key => counters.addKept key.text false false (!record.samples.isOk)
  | discarded => counters.addDiscarded discarded

theorem ofBlocks_append_singleton (selection : Selection) (blocks : List StreamBlock)
    (block : StreamBlock) :
    ofBlocks selection (blocks ++ [block]) =
      let counted := (ofBlocks selection blocks).addBytes block.bytes.length block.skipped
      match block.record? with
      | none => counted
      | some bytes => counted.addRecord selection bytes := by
  cases isRecord : block.record? with
  | none => simp [ofBlocks, addBytes, isRecord, Nat.add_assoc]
  | some bytes =>
      have isClass := Verdict.recordClass_ofBytes selection bytes
      cases verdict : Verdict.ofBytes selection bytes with
      | corrupt | heartbeat | filtered | illegalRate | kept =>
          simp [ofBlocks, addBytes, addRecord, isRecord, verdict, Nat.add_assoc, ← isClass,
            Selection.countOf, Selection.keyText?, Selection.keepsUndecoded, addDiscarded, addKept,
            one, Verdict.recordClass]

/-- The order of blocks makes no difference to what they count for. -/
theorem ofBlocks_perm {selection : Selection} {blocks others : List StreamBlock}
    (isPerm : blocks.Perm others) : ofBlocks selection blocks = ofBlocks selection others := by
  have records := isPerm.filterMap StreamBlock.record?
  have names := records.filterMap selection.keyText?
  simp only [ofBlocks, Selection.countOf, totalOf_perm _ isPerm, records.countP_eq,
    Tally.ofNames_perm names]

/-- The counter of a class counts the records of the class. -/
theorem inClass_ofBlocks (selection : Selection) (blocks : List StreamBlock)
    (recordClass : RecordClass) :
    (ofBlocks selection blocks).inClass recordClass =
      selection.countOf (blocks.filterMap StreamBlock.record?) recordClass := by
  cases recordClass <;> rfl

/-- Whether the counters of records agree with each other. -/
structure Balanced (counters : Counters) : Prop where
  discarded : counters.discarded =
    counters.corrupt + counters.heartbeats + counters.filtered + counters.illegalRates
  records : counters.records.total = counters.kept
  decodeFailures : counters.decodeFailures ≤ counters.kept

theorem Balanced.addRecord {counters : Counters} (balanced : counters.Balanced)
    (selection : Selection) (bytes : List UInt8) :
    (counters.addRecord selection bytes).Balanced := by
  obtain ⟨discarded, records, decodeFailures⟩ := balanced
  simp only [Counters.addRecord]
  cases Verdict.ofBytes selection bytes with
  | corrupt | heartbeat | filtered | illegalRate =>
      refine ⟨?_, records, decodeFailures⟩
      simp only [addDiscarded]
      omega
  | kept record key =>
      refine ⟨discarded, ?_, ?_⟩
      · simp only [addKept, Tally.total_count, records]
      · simp only [addKept, one]
        split <;> omega

theorem balanced_ofBlocks (selection : Selection) (blocks : List StreamBlock) :
    (ofBlocks selection blocks).Balanced := by
  induction blocks using List.reverseRecOn with
  | nil => exact ⟨rfl, rfl, Nat.le_refl _⟩
  | append_singleton blocks block ih =>
      have counted : ((ofBlocks selection blocks).addBytes block.bytes.length
        block.skipped).Balanced := ⟨ih.discarded, ih.records, ih.decodeFailures⟩
      rw [ofBlocks_append_singleton]
      cases block.record? with
      | none => exact counted
      | some bytes => exact counted.addRecord selection bytes

/-- Every record is kept or discarded. -/
theorem kept_add_discarded_ofBlocks (selection : Selection) (blocks : List StreamBlock) :
    (ofBlocks selection blocks).kept + (ofBlocks selection blocks).discarded =
      (blocks.filterMap StreamBlock.record?).length := by
  simp [ofBlocks, Selection.countOf, List.length_eq_countP_add_countP
    (fun bytes => RecordClass.ofBytes selection bytes = RecordClass.kept)]

end Counters

namespace Demux

theorem settled_receiveRecord (demux : Demux) (bytes : List UInt8) :
    (demux.receiveRecord bytes).counters.settled =
      demux.counters.settled.addRecord demux.selection bytes := by
  simp only [receiveRecord, Counters.addRecord]
  cases Verdict.ofBytes demux.selection bytes <;> rfl

theorem settled_receive (demux : Demux) (block : StreamBlock) :
    (demux.receive block).2.counters.settled =
      let counted := demux.counters.settled.addBytes block.bytes.length block.skipped
      match block.record? with
      | none => counted
      | some bytes => counted.addRecord demux.selection bytes := by
  obtain ⟨stream, skipped, content⟩ := block
  cases content with
  | record bytes => exact settled_receiveRecord _ bytes
  | ended isLast => rfl
  | failed message => rfl

/-- Receiving blocks counts what they count for. -/
theorem settled_receiveAll (selection : Selection) (tolerance : Tolerance)
    (blocks : List StreamBlock) :
    ((start selection tolerance).receiveAll blocks).counters.settled =
      Counters.ofBlocks selection blocks := by
  induction blocks using List.reverseRecOn with
  | nil => rfl
  | append_singleton blocks block ih =>
      rw [receiveAll_append_singleton, settled_receive, ih, Counters.ofBlocks_append_singleton,
        selection_receiveAll]
      rfl

end Demux

end Waveform
