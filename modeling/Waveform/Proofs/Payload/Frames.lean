import Waveform.Proofs.Payload.Packing

/-!
# Compressed frames

How data words with their nibbles are stored in frames, in either byte order, and that reading the
frames of a payload gives the data words back.
-/

namespace Waveform

/-! ## Pieces of one size -/

/-- A piece of the size asked for in front of other bytes is cut off first. -/
theorem chunks_append {size : Nat} {piece : List UInt8} (positive : 0 < size)
    (isSize : piece.length = size) (rest : List UInt8) :
    chunks size (piece ++ rest) = piece :: chunks size rest := by
  rw [chunks, List.take_left' isSize, List.drop_left' isSize, if_pos ⟨positive, isSize⟩]

/-- Things stored in pieces of one size are cut into the pieces they were stored in. -/
theorem chunks_flatMap {Item : Type} {size : Nat} {store : Item → List UInt8} (positive : 0 < size)
    (isSize : ∀ item, (store item).length = size) (items : List Item) (rest : List UInt8) :
    chunks size (items.flatMap store ++ rest) = items.map store ++ chunks size rest := by
  induction items with
  | nil => rfl
  | cons item later ih =>
      rw [List.flatMap_cons, List.append_assoc, chunks_append positive (isSize item), ih,
        List.map_cons, List.cons_append]

namespace Steim

/-! ## Words -/

/-- The four bytes that a word is stored as. -/
def wordBytes (order : ByteOrder) (word : BitVec 32) : List UInt8 :=
  order.mostSignificantFirst (bigEndianBytes 4 word.toNat)

theorem length_wordBytes (order : ByteOrder) (word : BitVec 32) :
    (wordBytes order word).length = 4 := by
  cases order <;> simp [wordBytes]

theorem ofDigits_bigEndianBytes {value : Nat} (bounded : value < 2 ^ 32) :
    ByteOrder.ofDigits (bigEndianBytes 4 value) = value := by
  have digit (place : Nat) : UInt8.ofNat ((value : Int) / wordCount place % 256).toNat =
      UInt8.ofNat (value / wordCount place) := by
    have isNat : (value : Int) / wordCount place % 256 =
        ((value / wordCount place % 256 : Nat) : Int) := rfl
    rw [isNat, Int.toNat_natCast]
    exact UInt8.ofNat_mod_size
  have isBytes : bigEndianBytes 4 value =
      [UInt8.ofNat (value / 16777216), UInt8.ofNat (value / 65536), UInt8.ofNat (value / 256),
        UInt8.ofNat (value / 1)] := by
    simp only [bigEndianBytes, digit]
    rfl
  simp only [isBytes, ByteOrder.ofDigits, List.foldl_cons, List.foldl_nil, UInt8.toNat_ofNat']
  omega

/-- Reading a stored word in its byte order gives it back. -/
theorem wordOf_wordBytes (order : ByteOrder) (word : BitVec 32) :
    wordOf order (wordBytes order word) = word := by
  have digits := ofDigits_bigEndianBytes word.isLt
  apply BitVec.eq_of_toNat_eq
  rw [wordOf, BitVec.toNat_ofNat]
  cases order with
  | bigEndian =>
      rw [wordBytes, ByteOrder.unsigned, ByteOrder.mostSignificantFirst_bigEndian,
        ByteOrder.mostSignificantFirst_bigEndian, digits]
      exact Nat.mod_eq_of_lt word.isLt
  | littleEndian =>
      rw [wordBytes, ByteOrder.unsigned, ByteOrder.mostSignificantFirst_littleEndian,
        ByteOrder.mostSignificantFirst_littleEndian, List.reverse_reverse, digits]
      exact Nat.mod_eq_of_lt word.isLt

/-! ## Frames -/

/-- A frame: data words with their nibbles, and the nibble of the frame's own word, which tells
nothing. -/
structure Frame where
  ownNibble : Nat
  data : List DataWord
  isFull : data.length = 15
  ownNibble_lt : ownNibble < 4
  nibble_lt : ∀ word ∈ data, word.nibble < 4

namespace Frame

variable (frame : Frame)

/-- All nibbles of a frame. -/
def nibbles : List Nat := frame.ownNibble :: frame.data.map DataWord.nibble

/-- The word of nibbles. -/
def nibbleWord : BitVec 32 := BitVec.ofNat 32 (joined 2 frame.nibbles)

/-- The words that a frame stores. -/
def words : List (BitVec 32) := frame.nibbleWord :: frame.data.map DataWord.word

/-- The bytes that a frame is stored as. -/
def bytes (order : ByteOrder) : List UInt8 := frame.words.flatMap (wordBytes order)

theorem length_nibbles : frame.nibbles.length = 16 := by
  rw [nibbles, List.length_cons, List.length_map, frame.isFull]

theorem nibbles_lt : ∀ nibble ∈ frame.nibbles, nibble < 2 ^ 2 := by
  intro nibble member
  cases member with
  | head => exact frame.ownNibble_lt
  | tail _ isData =>
      obtain ⟨data, isMember, isNibble⟩ := List.mem_map.1 isData
      rw [← isNibble]
      exact frame.nibble_lt data isMember

/-- The word of nibbles holds each nibble at its place. -/
theorem nibbleAt_nibbleWord (place : Nat) (isPlace : place < frame.nibbles.length) :
    nibbleAt frame.nibbleWord place = frame.nibbles[place] := by
  have wordLt := joined_lt frame.nibbles_lt
  have found := field_of_joined frame.nibbles_lt 0 place isPlace
  rw [frame.length_nibbles] at wordLt found
  have isShift : 30 - 2 * place = 2 * (16 - 1 - place) := by omega
  rw [nibbleAt, nibbleWord, BitVec.toNat_ushiftRight, Nat.shiftRight_eq_div_pow,
    BitVec.toNat_ofNat, Nat.mod_eq_of_lt wordLt, isShift]
  rw [Nat.mul_zero, Nat.zero_add] at found
  exact found

theorem length_bytes (order : ByteOrder) : (frame.bytes order).length = frameLength := by
  have lengths : frame.words.map (fun word => (wordBytes order word).length) =
      List.replicate frame.words.length 4 :=
    List.map_eq_replicate_iff.2 fun word _ => length_wordBytes order word
  rw [bytes, List.length_flatMap, lengths, words, List.length_cons, List.length_map, frame.isFull]
  rfl

/-- Reading a stored frame gives back its data words with their nibbles. -/
theorem frameWords_bytes (order : ByteOrder) :
    frameWords order (frame.bytes order) = frame.data := by
  have isWords : (chunks 4 (frame.bytes order)).map (wordOf order) = frame.words := by
    have cut := chunks_flatMap (by decide) (length_wordBytes order) frame.words []
    have noMore : chunks 4 [] = [] := List.eq_nil_of_length_eq_zero (length_chunks 4 [])
    rw [List.append_nil, noMore, List.append_nil] at cut
    rw [bytes, cut, List.map_map]
    exact List.map_id'' (wordOf_wordBytes order) frame.words
  rw [frameWords, isWords]
  apply List.ext_getElem
  · simp [words]
  intro index isIndex isData
  have isPlace : index + 1 < frame.nibbles.length := by
    rw [frame.isFull] at isData
    rw [frame.length_nibbles]
    exact Nat.succ_lt_succ isData
  have isNibble := frame.nibbleAt_nibbleWord (index + 1) isPlace
  simp [words, isNibble, nibbles, Nat.add_comm 1 index]

end Frame

/-- Reading stored frames, whatever stands behind them, gives their data words first. -/
theorem payloadWords_frames (order : ByteOrder) (frames : List Frame) (rest : List UInt8) :
    payloadWords order ((frames.flatMap fun frame => frame.bytes order) ++ rest) =
      frames.flatMap Frame.data ++ payloadWords order rest := by
  rw [payloadWords, chunks_flatMap (by decide) (fun frame => Frame.length_bytes frame order),
    List.flatMap_append, List.flatMap_map, payloadWords]
  simp only [Frame.frameWords_bytes]

end Steim

end Waveform
