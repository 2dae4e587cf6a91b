import Waveform.Payload.Encoding
import Waveform.Proofs.Watched

/-!
# Reading payloads at addresses

Decoding cuts a payload into pieces before it looks at them. Here it goes word by word instead:
every word is read at its address, and the decoding is watched. It comes to nothing as soon as a
read would leave the payload, a nibble had more than its two bits or a sample were taken that is not
there. None of this ever happens, and the words are the same.
-/

namespace Waveform

open Watched

/-! ## Pieces at their addresses -/

theorem bytesAt_bytesAt (payload : List UInt8) {outer length inner width : Nat}
    (inside : inner + width ≤ length) :
    bytesAt (bytesAt payload outer length) inner width = bytesAt payload (outer + inner) width := by
  rw [bytesAt, bytesAt, bytesAt, List.drop_take, List.take_take, List.drop_drop,
    Nat.min_eq_left (by omega)]

/-- The pieces of a byte list, each at its address. -/
theorem chunks_eq_map {size : Nat} (positive : 0 < size) (bytes : List UInt8) :
    chunks size bytes =
      (List.range (bytes.length / size)).map fun place => bytesAt bytes (size * place) size := by
  fun_induction chunks size bytes with
  | case1 bytes fits ih =>
      have enough : size ≤ bytes.length := by
        rw [← fits.2, List.length_take]
        exact Nat.min_le_right _ _
      rw [Nat.div_eq_sub_div positive enough, List.range_succ_eq_map, List.map_cons, List.map_map,
        ih, List.length_drop]
      congr 1
      apply List.map_congr_left
      intro place _
      rw [Function.comp_apply, bytesAt, bytesAt, List.drop_drop, Nat.mul_succ, Nat.add_comm]
  | case2 bytes short =>
      have tooShort : bytes.length < size := by
        rw [List.length_take] at short
        omega
      rw [Nat.div_eq_of_lt tooShort]
      rfl

theorem place_fits {size length place : Nat} (isPlace : place < length / size) :
    size * place + size ≤ length := by
  have whole := Nat.mul_le_mul_left size isPlace
  rw [Nat.mul_succ] at whole
  exact Nat.le_trans whole (Nat.mul_div_le length size)

/-! ## Samples of a fixed width -/

namespace FixedWidth

/-- Decode samples by reading each at its address. -/
def watch (width : Nat) (order : ByteOrder) (payload : List UInt8) (count : Nat) :
    Watched PayloadError (List Int32) :=
  if payload.length < neededBytes width count then
    throw (.tooFewSamples count (payload.length / width))
  else
    (List.range (min count (payload.length / width))).mapM fun place => do
      let word ← readAt payload (width * place) width
      return Int32.ofInt (order.signed word)

theorem gives_watch {width : Nat} (positive : 0 < width) (order : ByteOrder) (payload : List UInt8)
    (count : Nat) : (watch width order payload count).Gives (decode width order payload count) := by
  rw [watch, decode]
  split
  next => exact gives_throw _
  next =>
    rw [chunks_eq_map positive, ← List.map_take, List.take_range, List.map_map]
    change Gives _ (pure _)
    rw [← List.mapM_pure]
    apply Gives.mapM
    intro place isPlace
    have isPiece := Nat.lt_of_lt_of_le (List.mem_range.mp isPlace) (Nat.min_le_right _ _)
    exact (gives_readAt (place_fits isPiece)).bind (gives_pure _)

end FixedWidth

/-! ## Compressed samples -/

namespace Steim

/-- Where data words are: the number of the frame and the place in the frame. -/
def places (payload : List UInt8) : List (Nat × Nat) :=
  (List.range (payload.length / frameLength)).flatMap fun frame =>
    (List.range 15).map fun place => (frame, place + 1)

/-- The word at a place of a frame. -/
def wordAt (order : ByteOrder) (payload : List UInt8) (frame place : Nat) : BitVec 32 :=
  wordOf order (bytesAt payload (frameLength * frame + 4 * place) 4)

/-- Read the word at a place of a frame. -/
def readWord (order : ByteOrder) (payload : List UInt8) (frame place : Nat) :
    Watched PayloadError (BitVec 32) := do
  let bytes ← readAt payload (frameLength * frame + 4 * place) 4
  return wordOf order bytes

/-- Unpack data words until enough differences are there, reading each word, and before it the
nibbles of its frame, at its address. -/
def watchGather (level : Level) (order : ByteOrder) (payload : List UInt8) :
    (wanted : Nat) → List (Nat × Nat) → Watched PayloadError (List Int32)
  | 0, _ => pure []
  | _ + 1, [] => pure []
  | wanted + 1, (frame, place) :: later => do
      let nibbles ← readWord order payload frame 0
      let word ← readWord order payload frame place
      require (nibbleAt nibbles place < 4)
      let here ← liftExcept (DataWord.differences level ⟨nibbleAt nibbles place, word⟩)
      let rest ← watchGather level order payload (wanted + 1 - here.length) later
      return here ++ rest

/-- Decode samples by reading each word at its address. The first two data words hold the first and
the last sample. -/
def watch (level : Level) (order : ByteOrder) (payload : List UInt8) (count : Nat) :
    Watched PayloadError (List Int32) :=
  if count = 0 then pure []
  else if payload.length < frameLength then throw (.noFrame payload.length frameLength)
  else do
    let first ← readWord order payload 0 1
    let _ ← readWord order payload 0 2
    let differences ← watchGather level order payload count ((places payload).drop 2)
    if differences.length < count then throw (.tooFewDifferences count differences.length)
    else do
      require (1 ≤ count ∧ count ≤ differences.length)
      return integrate (Int32.ofBitVec first) ((differences.take count).drop 1)

/-- The data word at a place of a frame, with its nibble. -/
def dataWordAt (order : ByteOrder) (payload : List UInt8) (place : Nat × Nat) : DataWord :=
  ⟨nibbleAt (wordAt order payload place.1 0) place.2, wordAt order payload place.1 place.2⟩

/-- The data words of a frame, each at its place. -/
theorem frameWords_eq_map {order : ByteOrder} {payload : List UInt8} {frame : Nat}
    (isFrame : frameLength * frame + frameLength ≤ payload.length) :
    frameWords order (bytesAt payload (frameLength * frame) frameLength) =
      (List.range 15).map fun place => dataWordAt order payload (frame, place + 1) := by
  have isFull : (bytesAt payload (frameLength * frame) frameLength).length / 4 = 16 := by
    rw [bytesAt, List.length_take, List.length_drop, Nat.min_eq_left (by omega)]
    rfl
  have areWords :
      (chunks 4 (bytesAt payload (frameLength * frame) frameLength)).map (wordOf order) =
      (List.range 16).map (wordAt order payload frame) := by
    rw [chunks_eq_map (by decide), isFull, List.map_map]
    apply List.map_congr_left
    intro place isPlace
    have isPlace := List.mem_range.mp isPlace
    rw [Function.comp_apply, bytesAt_bytesAt, wordAt]
    rw [frameLength]
    omega
  rw [frameWords, areWords]
  rfl

theorem payloadWords_eq_map (order : ByteOrder) (payload : List UInt8) :
    payloadWords order payload = (places payload).map (dataWordAt order payload) := by
  rw [payloadWords, places, chunks_eq_map (by decide), List.flatMap_map, List.map_flatMap]
  apply List.flatMap_congr
  intro frame isFrame
  rw [frameWords_eq_map (place_fits (List.mem_range.mp isFrame)), List.map_map]
  rfl

theorem place_inside {payload : List UInt8} {frame place : Nat}
    (isPlace : (frame, place) ∈ places payload) :
    frameLength * frame + frameLength ≤ payload.length ∧ place < 16 := by
  obtain ⟨_, isFrame, isPlace⟩ := List.mem_flatMap.mp isPlace
  obtain ⟨other, isOther, same⟩ := List.mem_map.mp isPlace
  cases same
  exact ⟨place_fits (List.mem_range.mp isFrame), Nat.succ_lt_succ (List.mem_range.mp isOther)⟩

/-- A word of a frame that is there can be read. -/
theorem gives_readWord (order : ByteOrder) {payload : List UInt8} {frame place : Nat}
    (isFrame : frameLength * frame + frameLength ≤ payload.length) (isPlace : place < 16) :
    (readWord order payload frame place).Gives (.ok (wordAt order payload frame place)) := by
  have inside : frameLength * frame + 4 * place + 4 ≤ payload.length := by
    rw [frameLength] at isFrame ⊢
    omega
  exact (gives_readAt inside).bind (gives_pure _)

/-- A nibble has two bits. -/
theorem nibbleAt_lt (nibbles : BitVec 32) (place : Nat) : nibbleAt nibbles place < 4 :=
  Nat.mod_lt _ (by decide)

theorem gives_watchGather (level : Level) (order : ByteOrder) {payload : List UInt8} (wanted : Nat)
    {toRead : List (Nat × Nat)} (arePlaces : ∀ place ∈ toRead, place ∈ places payload) :
    (watchGather level order payload wanted toRead).Gives
      (gather level wanted (toRead.map (dataWordAt order payload))) := by
  induction toRead generalizing wanted with
  | nil => cases wanted <;> exact gives_pure []
  | cons place later ih =>
      cases wanted with
      | zero => exact gives_pure []
      | succ wanted =>
          obtain ⟨frame, place⟩ := place
          obtain ⟨isPlace, areLater⟩ := List.forall_mem_cons.mp arePlaces
          obtain ⟨isFrame, inFrame⟩ := place_inside isPlace
          rw [watchGather, List.map_cons, gather]
          apply (gives_readWord order isFrame (by decide)).bind
          apply (gives_readWord order isFrame inFrame).bind
          apply (gives_require (nibbleAt_lt _ place)).bind
          apply (gives_liftExcept _).andThen
          intro here
          apply (ih (wanted + 1 - here.length) areLater).andThen
          intro rest
          exact gives_pure (here ++ rest)

/-- The first word behind the nibbles of the first frame comes first. -/
theorem exists_places {payload : List UInt8} (enough : frameLength ≤ payload.length) :
    ∃ later, places payload = (0, 1) :: later := by
  obtain ⟨more, isCount⟩ : ∃ more, payload.length / frameLength = more + 1 :=
    Nat.exists_eq_add_one_of_ne_zero (Nat.ne_of_gt (Nat.div_pos enough (by decide)))
  rw [places, isCount, List.range_succ_eq_map (n := more), List.flatMap_cons]
  exact ⟨_, rfl⟩

theorem gives_watch (level : Level) (order : ByteOrder) (payload : List UInt8) (count : Nat) :
    (watch level order payload count).Gives (decode level order payload count) := by
  rw [watch, decode]
  split
  next => exact gives_pure []
  next someWanted =>
    split
    next => exact gives_throw _
    next notShort =>
      have enough : frameLength ≤ payload.length := Nat.not_lt.mp notShort
      have isFrame : frameLength * 0 + frameLength ≤ payload.length := by simpa using enough
      apply (gives_readWord order isFrame (by decide)).bind
      apply (gives_readWord order isFrame (by decide)).bind
      obtain ⟨later, arePlaces⟩ := exists_places enough
      have isFirst :
          ((payloadWords order payload).headD ⟨0, 0⟩).word = wordAt order payload 0 1 := by
        rw [payloadWords_eq_map, arePlaces]
        rfl
      dsimp only
      rw [isFirst, payloadWords_eq_map, ← List.map_drop]
      apply (gives_watchGather level order count fun place => List.mem_of_mem_drop).andThen
      intro differences
      split
      next => exact gives_throw _
      next isEnough =>
        apply (gives_require ⟨Nat.pos_of_ne_zero someWanted, Nat.not_lt.mp isEnough⟩).bind
        exact gives_pure _

end Steim

/-! ## Payloads -/

/-- Decode a payload by reading each word at its address. -/
def watchPayload (code : Nat) (order : ByteOrder) (payload : List UInt8) (count : Nat) :
    Watched PayloadError (List Int32) :=
  match Encoding.ofCode? code with
  | some .integers16 => FixedWidth.watch 2 order payload count
  | some .integers32 => FixedWidth.watch 4 order payload count
  | some (.steim level) => Steim.watch level order payload count
  | none => throw (.encoding code)

/-- No decoding comes to nothing: no read leaves the payload, and every nibble has a meaning. -/
theorem gives_watchPayload (code : Nat) (order : ByteOrder) (payload : List UInt8) (count : Nat) :
    (watchPayload code order payload count).Gives (decodePayload code order payload count) := by
  rw [watchPayload, decodePayload]
  cases Encoding.ofCode? code with
  | none => exact gives_throw _
  | some encoding =>
      cases encoding with
      | integers16 => exact FixedWidth.gives_watch (by decide) order payload count
      | integers32 => exact FixedWidth.gives_watch (by decide) order payload count
      | steim level => exact Steim.gives_watch level order payload count

end Waveform
