import Waveform.Payload.Encoding
import Waveform.Proofs.Payload.Frames

/-!
# Round trip of compressed samples

Decoding gives back the samples that were compressed, however their differences were grouped into
data words and whatever stands behind the last word that is needed.
-/

namespace Waveform.Steim

variable {level : Level}

/-! ## Differences of neighbouring samples -/

/-- The differences from each sample to the one after it, from a previous sample on. They wrap
around. -/
def differencesFrom : (previous : Int32) → List Int32 → List Int32
  | _, [] => []
  | previous, sample :: later => (sample - previous) :: differencesFrom sample later

theorem length_differencesFrom (previous : Int32) (samples : List Int32) :
    (differencesFrom previous samples).length = samples.length := by
  induction samples generalizing previous with
  | nil => rfl
  | cons sample later ih => rw [differencesFrom, List.length_cons, List.length_cons, ih]

/-- Running sums undo differences. -/
theorem integrate_differencesFrom (first : Int32) (later : List Int32) :
    integrate first (differencesFrom first later) = first :: later := by
  induction later generalizing first with
  | nil => rfl
  | cons sample later ih =>
      rw [differencesFrom, integrate, Int32.add_comm, Int32.sub_add_cancel, ih]

/-! ## Unpacking data words -/

/-- A data word as it is written. -/
inductive Slot (level : Level) where
  /-- A word without differences. -/
  | blank (word : BitVec 32)
  | packed (group : Group level)

namespace Slot

def dataWord : Slot level → DataWord
  | .blank word => ⟨0, word⟩
  | .packed group => group.dataWord

def differences : Slot level → List Int32
  | .blank _ => []
  | .packed group => group.differences

theorem differences_dataWord (slot : Slot level) :
    slot.dataWord.differences level = .ok slot.differences := by
  cases slot with
  | blank word => cases level <;> rfl
  | packed group => exact group.differences_dataWord

end Slot

/-- Unpacking gives the differences that were written, as many as are wanted or some more. Words
behind them are not looked at. -/
theorem gather_slots (slots : List (Slot level)) (after : List DataWord) (wanted : Nat)
    (enough : wanted ≤ (slots.flatMap Slot.differences).length) :
    ∃ found, gather level wanted (slots.map Slot.dataWord ++ after) = .ok found ∧
      found <+: slots.flatMap Slot.differences ∧ wanted ≤ found.length := by
  induction slots generalizing wanted with
  | nil =>
      cases Nat.le_zero.1 enough
      exact ⟨[], by rw [gather], List.prefix_rfl, Nat.le_refl 0⟩
  | cons slot later ih =>
      cases wanted with
      | zero => exact ⟨[], by rw [gather], List.nil_prefix, Nat.le_refl 0⟩
      | succ wanted =>
          rw [List.flatMap_cons, List.length_append] at enough
          obtain ⟨found, isFound, isPrefix, isEnough⟩ :=
            ih (wanted + 1 - slot.differences.length) (Nat.sub_le_iff_le_add'.2 enough)
          refine ⟨slot.differences ++ found, ?_, ?_, ?_⟩
          · rw [List.map_cons, List.cons_append, gather, slot.differences_dataWord]
            simp only [bind, Except.bind, isFound]
          · exact (List.prefix_append_right_inj slot.differences).2 isPrefix
          · rw [List.length_append]
            exact Nat.sub_le_iff_le_add'.1 isEnough

/-! ## Compressed payloads -/

/-- A way to store some samples, compressed. -/
structure Layout (level : Level) (first : Int32) (later : List Int32) where
  /-- The difference that leads to the first sample. -/
  unused : Int32
  slots : List (Slot level)
  /-- The last group may hold more differences than there are. -/
  holds : unused :: differencesFrom first later <+: slots.flatMap Slot.differences
  frames : List Frame
  firstNibble : Nat
  /-- The place of the last sample. -/
  last : DataWord
  /-- The data words behind those that are needed. -/
  after : List DataWord
  isLaidOut : frames.flatMap Frame.data =
    ⟨firstNibble, first.toBitVec⟩ :: last :: (slots.map Slot.dataWord ++ after)
  /-- The bytes behind the frames. -/
  trailing : List UInt8

namespace Layout

variable {first : Int32} {later : List Int32} (layout : Layout level first later)

/-- The bytes that are stored. -/
def payload (order : ByteOrder) : List UInt8 :=
  (layout.frames.flatMap fun frame => frame.bytes order) ++ layout.trailing

theorem payloadWords_payload (order : ByteOrder) :
    payloadWords order (layout.payload order) =
      ⟨layout.firstNibble, first.toBitVec⟩ :: layout.last ::
        (layout.slots.map Slot.dataWord ++
          (layout.after ++ payloadWords order layout.trailing)) := by
  rw [payload, payloadWords_frames, layout.isLaidOut, List.cons_append, List.cons_append,
    List.append_assoc]

/-- There is at least one frame. -/
theorem frameLength_le_payload (order : ByteOrder) :
    frameLength ≤ (layout.payload order).length := by
  have isLaidOut := layout.isLaidOut
  rw [payload, List.length_append]
  cases isFrames : layout.frames with
  | nil =>
      rw [isFrames] at isLaidOut
      cases isLaidOut
  | cons frame more =>
      rw [List.flatMap_cons, List.length_append, frame.length_bytes, Nat.add_assoc]
      exact Nat.le_add_right _ _

/-- Decoding gives back the samples that were stored. -/
theorem decode_payload (order : ByteOrder) :
    decode level order (layout.payload order) (later.length + 1) = .ok (first :: later) := by
  have count : (layout.unused :: differencesFrom first later).length = later.length + 1 := by
    rw [List.length_cons, length_differencesFrom]
  have enough := layout.holds.length_le
  rw [count] at enough
  obtain ⟨found, isFound, isPrefix, isEnough⟩ := gather_slots layout.slots
    (layout.after ++ payloadWords order layout.trailing) (later.length + 1) enough
  -- What is found and what was stored are beginnings of the same differences.
  have isTaken : found.take (later.length + 1) = layout.unused :: differencesFrom first later := by
    rw [← count] at isEnough
    have held := List.prefix_of_prefix_length_le layout.holds isPrefix isEnough
    rw [List.prefix_iff_eq_take.1 held, count]
  rw [decode, if_neg (Nat.succ_ne_zero _),
    if_neg (Nat.not_lt_of_le (layout.frameLength_le_payload order))]
  simp only [payloadWords_payload, List.headD_cons, List.drop_succ_cons, List.drop_zero, isFound,
    bind, Except.bind]
  rw [if_neg (Nat.not_lt_of_le isEnough), isTaken, List.drop_succ_cons, List.drop_zero,
    Int32.ofBitVec_toBitVec, integrate_differencesFrom]

/-- The same by the code of the encoding: whatever the order of the bytes in a word, decoding as
many samples as were stored gives them back. -/
theorem decodePayload_payload {code : Nat} (isCode : Encoding.ofCode? code = some (.steim level))
    (order : ByteOrder) :
    decodePayload code order (layout.payload order) (first :: later).length =
      .ok (first :: later) := by
  rw [decodePayload, isCode]
  exact layout.decode_payload order

end Layout

/-- Three differences in a word with room for seven. -/
def paddedGroup : Group .two where
  form := ⟨3, some 2, ⟨7, 4⟩⟩
  allowed := by decide
  differences := [7, 3, -5, 1, 1, 1, 1]
  isFull := rfl
  fits := by
    intro difference member
    simp only [List.mem_cons, List.not_mem_nil, or_false] at member
    rcases member with rfl | rfl | rfl | rfl | rfl | rfl | rfl <;> decide
  spare := 3
  spare_lt := by decide

/-- The samples 100, 103 and 98 with a word without differences before the one that holds theirs.
The words and the bytes behind it make no sense. -/
def paddedLayout : Layout .two 100 [103, 98] where
  unused := 7
  slots := [.blank 5, .packed paddedGroup]
  holds := ⟨[1, 1, 1, 1], by decide⟩
  frames :=
    [{ ownNibble := 0
       data := ⟨0, 100⟩ :: ⟨0, 98⟩ :: ⟨0, 5⟩ :: paddedGroup.dataWord :: List.replicate 11 ⟨2, 1⟩
       isFull := rfl
       ownNibble_lt := by decide
       nibble_lt := by decide }]
  firstNibble := 0
  last := ⟨0, 98⟩
  after := List.replicate 11 ⟨2, 1⟩
  isLaidOut := rfl
  trailing := [1, 2, 3]

theorem decodePayload_payload_padded :
    paddedLayout.payload .littleEndian =
        [0xAA, 0xAA, 0xEA, 0, 100, 0, 0, 0, 98, 0, 0, 0, 5, 0, 0, 0, 0x11, 0x11, 0x3B, 0xB7] ++
          (List.replicate 11 [1, 0, 0, 0]).flatten ++ [1, 2, 3] ∧
      decodePayload 11 .littleEndian (paddedLayout.payload .littleEndian) 3 =
        .ok [100, 103, 98] :=
  ⟨by decide +kernel, paddedLayout.decodePayload_payload rfl .littleEndian⟩

end Waveform.Steim
