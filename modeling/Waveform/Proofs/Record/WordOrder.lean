import Mathlib.Data.List.Pairwise
import Waveform.Proofs.Record.Extension
import Waveform.Proofs.Record.Ranges

/-!
# Headers in either byte order

A header with the bytes of all its words reversed is the same header stored in the other byte order.
The header does not name its order, and the most significant byte first is tried first: the reversed
header is recognised, unless its start is sensible in both orders. That is so for three days of one
year.
-/

namespace Waveform

/-! ## Reversed words -/

/-- A buffer with the bytes of one word reversed. -/
def reverseWord (buffer : List UInt8) (offset width : Nat) : List UInt8 :=
  buffer.take offset ++ ((bytesAt buffer offset width).reverse ++ buffer.drop (offset + width))

/-- A buffer with the bytes of several words reversed, each of which is given by its offset and its
width. -/
def reverseWords (buffer : List UInt8) (places : List (Nat × Nat)) : List UInt8 :=
  places.foldl (fun buffer word => reverseWord buffer word.1 word.2) buffer

/-- Whether two words share no byte. -/
def AreApart (first second : Nat × Nat) : Prop :=
  first.1 + first.2 ≤ second.1 ∨ second.1 + second.2 ≤ first.1

instance (first second : Nat × Nat) : Decidable (AreApart first second) := by
  unfold AreApart
  infer_instance

variable {buffer : List UInt8} {places : List (Nat × Nat)} {offset width : Nat}

theorem length_bytesAt (inside : offset + width ≤ buffer.length) :
    (bytesAt buffer offset width).length = width := by
  rw [bytesAt, List.length_take, List.length_drop]
  omega

@[simp] theorem length_reverseWord (inside : offset + width ≤ buffer.length) :
    (reverseWord buffer offset width).length = buffer.length := by
  simp only [reverseWord, List.length_append, List.length_reverse, length_bytesAt inside,
    List.length_take, List.length_drop]
  omega

theorem bytesAt_reverseWord_self (inside : offset + width ≤ buffer.length) :
    bytesAt (reverseWord buffer offset width) offset width =
      (bytesAt buffer offset width).reverse := by
  have starts : (buffer.take offset).length = offset := by
    rw [List.length_take]
    omega
  have fits : ((bytesAt buffer offset width).reverse).length = width := by
    rw [List.length_reverse, length_bytesAt inside]
  rw [reverseWord, bytesAt, List.drop_left' starts, List.take_left' fits]

/-- Reversing a word leaves the bytes before and behind it. -/
theorem bytesAt_reverseWord_of_areApart {word : Nat × Nat}
    (inside : word.1 + word.2 ≤ buffer.length) (apart : AreApart word (offset, width)) :
    bytesAt (reverseWord buffer word.1 word.2) offset width = bytesAt buffer offset width := by
  have starts : (buffer.take word.1).length = word.1 := by
    rw [List.length_take]
    omega
  rcases apart with isBehind | isBefore
  · have isPassed : (buffer.take word.1 ++ (bytesAt buffer word.1 word.2).reverse).length =
        word.1 + word.2 := by
      rw [List.length_append, List.length_reverse, length_bytesAt inside, starts]
    have behind : word.1 + word.2 ≤ offset := isBehind
    obtain ⟨further, rfl⟩ := Nat.exists_eq_add_of_le behind
    rw [bytesAt, reverseWord, ← List.append_assoc, ← List.drop_drop, List.drop_left' isPassed,
      List.drop_drop, bytesAt]
  · have inTaken : offset + width ≤ (buffer.take word.1).length := by
      rw [starts]
      exact isBefore
    rw [reverseWord, bytesAt_append inTaken, ← bytesAt_append inTaken (buffer.drop word.1),
      List.take_append_drop]

theorem length_reverseWords (inside : ∀ word ∈ places, word.1 + word.2 ≤ buffer.length) :
    (reverseWords buffer places).length = buffer.length := by
  induction places generalizing buffer with
  | nil => rfl
  | cons word later ih =>
      obtain ⟨first, others⟩ := List.forall_mem_cons.mp inside
      have sameLength := length_reverseWord first
      rw [← sameLength] at others
      exact (ih others).trans sameLength

/-- Reversing words leaves the bytes that belong to none of them. -/
theorem bytesAt_reverseWords_of_areApart (inside : ∀ word ∈ places, word.1 + word.2 ≤ buffer.length)
    (apart : ∀ word ∈ places, AreApart word (offset, width)) :
    bytesAt (reverseWords buffer places) offset width = bytesAt buffer offset width := by
  induction places generalizing buffer with
  | nil => rfl
  | cons word later ih =>
      obtain ⟨first, others⟩ := List.forall_mem_cons.mp inside
      obtain ⟨firstApart, othersApart⟩ := List.forall_mem_cons.mp apart
      rw [← length_reverseWord first] at others
      exact (ih others othersApart).trans (bytesAt_reverseWord_of_areApart first firstApart)

/-- Reversing words that share no bytes reverses each of them. -/
theorem bytesAt_reverseWords_of_mem (inside : ∀ word ∈ places, word.1 + word.2 ≤ buffer.length)
    (apart : places.Pairwise AreApart) (member : (offset, width) ∈ places) :
    bytesAt (reverseWords buffer places) offset width = (bytesAt buffer offset width).reverse := by
  induction places generalizing buffer with
  | nil => cases member
  | cons word later ih =>
      obtain ⟨first, others⟩ := List.forall_mem_cons.mp inside
      obtain ⟨firstApart, othersApart⟩ := List.pairwise_cons.mp apart
      have laterInside := others
      rw [← length_reverseWord first] at laterInside
      rcases List.mem_cons.mp member with rfl | isLater
      · have unchanged := bytesAt_reverseWords_of_areApart laterInside fun word isLater =>
          (firstApart word isLater).symm
        exact unchanged.trans (bytesAt_reverseWord_self first)
      · have isReversed := ih laterInside othersApart isLater
        rw [bytesAt_reverseWord_of_areApart first (firstApart _ isLater)] at isReversed
        exact isReversed

/-! ## Words in the other order -/

/-- The other byte order. -/
def ByteOrder.other : ByteOrder → ByteOrder
  | .bigEndian => .littleEndian
  | .littleEndian => .bigEndian

theorem ByteOrder.unsigned_reverse (order : ByteOrder) (word : List UInt8) :
    order.unsigned word.reverse = order.other.unsigned word := by
  cases order with
  | bigEndian => rfl
  | littleEndian => exact unsigned_littleEndian_reverse word

theorem ByteOrder.signed_reverse (order : ByteOrder) (word : List UInt8) :
    order.signed word.reverse = order.other.signed word := by
  simp only [signed, unsigned_reverse, List.length_reverse]

theorem byteAt_eq_headD (buffer : List UInt8) (offset : Nat) :
    byteAt buffer offset = (bytesAt buffer offset 1).headD 0 := by
  rw [byteAt, bytesAt, List.getD_eq_getElem?_getD, List.headD_eq_head?_getD, List.head?_take,
    if_neg Nat.one_ne_zero, List.head?_drop]

namespace Header

/-- Where the words of a header stand, and how many bytes they have: year, day and fraction of the
start, the number of samples, the two numbers of the rate, the time correction, and the offsets of
the samples and of the first blockette. -/
def words : List (Nat × Nat) :=
  [(20, 2), (22, 2), (28, 2), (30, 2), (32, 2), (34, 2), (40, 4), (44, 2), (46, 2)]

theorem words_inside (isWhole : Header.length ≤ buffer.length) :
    ∀ word ∈ words, word.1 + word.2 ≤ buffer.length := by
  have inHeader : ∀ word ∈ words, word.1 + word.2 ≤ Header.length := by decide
  exact fun word member => (inHeader word member).trans isWhole

/-- A header whose words are reversed reads as before in the other byte order. -/
theorem read_reverseWords (isWhole : Header.length ≤ buffer.length) (order : ByteOrder) :
    Header.read order (reverseWords buffer words) =
      { Header.read order.other buffer with byteOrder := order } := by
  have inside := words_inside isWhole
  have isReversed {offset width : Nat} (member : (offset, width) ∈ words) :
      bytesAt (reverseWords buffer words) offset width = (bytesAt buffer offset width).reverse :=
    bytesAt_reverseWords_of_mem inside (by decide) member
  have isKept {offset width : Nat} (apart : ∀ word ∈ words, AreApart word (offset, width)) :
      bytesAt (reverseWords buffer words) offset width = bytesAt buffer offset width :=
    bytesAt_reverseWords_of_areApart inside apart
  simp (disch := decide) only [Header.read, startOffset, RecordTime.read, wordAt, signedWordAt,
    textAt, byteAt_eq_headD, isReversed, isKept, ByteOrder.unsigned_reverse,
    ByteOrder.signed_reverse]

/-- The indicator is no part of a word. -/
theorem indicator_reverseWords (isWhole : Header.length ≤ buffer.length) :
    byteAt (reverseWords buffer words) 6 = byteAt buffer 6 := by
  have apart : ∀ word ∈ words, AreApart word (6, 1) := by decide
  rw [byteAt_eq_headD, bytesAt_reverseWords_of_areApart (words_inside isWhole) apart,
    ← byteAt_eq_headD]

/-- The two numbers that a word of two bytes denotes. -/
theorem exists_bytes_of_word {offset : Nat} (inside : offset + 2 ≤ buffer.length) :
    ∃ high low : Nat, high < 256 ∧ low < 256 ∧
      wordAt .bigEndian buffer offset 2 = 256 * high + low ∧
      wordAt .littleEndian buffer offset 2 = 256 * low + high := by
  obtain ⟨first, second, isWord⟩ := List.length_eq_two.mp (length_bytesAt inside)
  refine ⟨first.toNat, second.toNat, first.toNat_lt, second.toNat_lt, ?_, ?_⟩
  · simp [wordAt, ByteOrder.unsigned, ByteOrder.ofDigits, isWord]
  · simp [wordAt, ByteOrder.unsigned, ByteOrder.ofDigits, isWord]

/-- A start that is sensible in one order is sensible in the other one too on three days of one year
only, whose numbers have the same two bytes, or bytes zero and one. -/
theorem isSensible_littleEndian_iff (isWhole : Header.length ≤ buffer.length)
    (isSensible : (RecordTime.read .bigEndian buffer startOffset).isSensible = true) :
    (RecordTime.read .littleEndian buffer startOffset).isSensible = true ↔
      (RecordTime.read .bigEndian buffer startOffset).year = 2056 ∧
        (RecordTime.read .bigEndian buffer startOffset).day ∈ [1, 256, 257] := by
  have holds : 48 ≤ buffer.length := isWhole
  have yearInside : startOffset + 2 ≤ buffer.length := by
    unfold startOffset
    omega
  have dayInside : startOffset + 2 + 2 ≤ buffer.length := by
    unfold startOffset
    omega
  obtain ⟨century, year, _, _, bigYear, littleYear⟩ := exists_bytes_of_word yearInside
  obtain ⟨highDay, lowDay, _, _, bigDay, littleDay⟩ := exists_bytes_of_word dayInside
  simp only [RecordTime.isSensible, RecordTime.read, bigYear, littleYear, bigDay, littleDay,
    decide_eq_true_eq, List.mem_cons, List.not_mem_nil, or_false] at isSensible ⊢
  constructor
  · intro otherSensible
    -- Either byte of the year is the higher one of a sensible year, and likewise with the day.
    have centuries : (century = 7 ∨ century = 8) ∧ (year = 7 ∨ year = 8) := by omega
    have days : (highDay = 0 ∨ highDay = 1) ∧ (lowDay = 0 ∨ lowDay = 1) := by omega
    obtain ⟨rfl | rfl, rfl | rfl⟩ := centuries <;> obtain ⟨rfl | rfl, rfl | rfl⟩ := days <;> omega
  · rintro ⟨sameYear, sameDay⟩
    have bytesOfYear : century = 8 ∧ year = 8 := by omega
    obtain ⟨rfl, rfl⟩ := bytesOfYear
    have daysBounds : highDay ≤ 1 ∧ lowDay ≤ 1 := by omega
    omega

/-- The most significant byte comes first if the start is sensible so, and else last if it is
sensible so. -/
theorem detectOrder?_eq (buffer : List UInt8) :
    detectOrder? buffer =
      if (RecordTime.read .bigEndian buffer startOffset).isSensible then some .bigEndian
      else if (RecordTime.read .littleEndian buffer startOffset).isSensible then some .littleEndian
      else none := by
  simp only [detectOrder?, List.find?_cons, List.find?_nil]
  cases (RecordTime.read .bigEndian buffer startOffset).isSensible <;>
    cases (RecordTime.read .littleEndian buffer startOffset).isSensible <;> rfl

/-- The reversed header of one with the most significant byte first is the same header in the other
order. On the first, the 256th and the 257th day of 2056, which are sensible in both orders, it is
taken for one with the most significant byte first, and all of its words have other values. -/
theorem decode_reverseWords {header : Header} (isDecoded : Header.decode buffer = .ok header)
    (isBig : header.byteOrder = .bigEndian) :
    Header.decode (reverseWords buffer words) =
      if header.start.year = 2056 ∧ header.start.day ∈ [1, 256, 257] then
        .ok { Header.read .littleEndian buffer with byteOrder := .bigEndian }
      else .ok { header with byteOrder := .littleEndian } := by
  obtain ⟨isWhole, isKnown, order, isDetected, rfl⟩ := decode_eq_ok_iff.mp isDecoded
  obtain rfl : order = .bigEndian := isBig
  have isSensible : (RecordTime.read .bigEndian buffer startOffset).isSensible = true := by
    rw [detectOrder?_eq] at isDetected
    grind
  have isRead := read_reverseWords isWhole
  have start (order : ByteOrder) :
      RecordTime.read order (reverseWords buffer words) startOffset =
        RecordTime.read order.other buffer startOffset := congrArg Header.start (isRead order)
  have stillWhole : Header.length ≤ (reverseWords buffer words).length := by
    rw [length_reverseWords (words_inside isWhole)]
    exact isWhole
  have stillKnown : isIndicator (byteAt (reverseWords buffer words) 6) = true := by
    rw [indicator_reverseWords isWhole]
    exact isKnown
  have isAmbiguous := isSensible_littleEndian_iff isWhole isSensible
  split
  next ambiguous =>
    refine decode_eq_ok_iff.mpr ⟨stillWhole, stillKnown, .bigEndian, ?_, isRead .bigEndian⟩
    rw [detectOrder?_eq, start .bigEndian]
    exact if_pos (isAmbiguous.mpr ambiguous)
  next unambiguous =>
    refine decode_eq_ok_iff.mpr ⟨stillWhole, stillKnown, .littleEndian, ?_, isRead .littleEndian⟩
    rw [detectOrder?_eq, start .bigEndian, start .littleEndian]
    exact (if_neg (mt isAmbiguous.mp unambiguous)).trans (if_pos isSensible)

/-- A header with the two bytes of the year and those of the day, the higher one first. -/
def startingOn (century year highDay lowDay : UInt8) : List UInt8 :=
  [48, 48, 48, 48, 48, 49, 68, 32, 65, 78, 77, 79, 32, 48, 48, 66, 72, 90, 73, 85,
    century, year, highDay, lowDay, 0, 0, 0, 0, 0, 0, 0, 2, 0, 20, 0, 1, 0, 0, 0, 1, 0, 0, 0, 0,
    0, 56, 0, 48]

/-- The 61st day of 2012. -/
theorem decode_reverseWords_leapYear :
    ∃ header, Header.decode (startingOn 7 220 0 61) = .ok header ∧
      header.byteOrder = .bigEndian ∧ header.start.year = 2012 ∧ header.start.day = 61 ∧
      Header.decode (reverseWords (startingOn 7 220 0 61) words) =
        .ok { header with byteOrder := .littleEndian } := by
  have isDecoded : Header.decode (startingOn 7 220 0 61) =
      .ok (Header.read .bigEndian (startingOn 7 220 0 61)) := rfl
  exact ⟨_, isDecoded, rfl, rfl, rfl, decode_reverseWords isDecoded rfl⟩

/-- The first day of 2056 is the 256th when its bytes are reversed. -/
theorem decode_reverseWords_ne :
    ∃ header, Header.decode (startingOn 8 8 0 1) = .ok header ∧
      header.byteOrder = .bigEndian ∧ header.start.year = 2056 ∧ header.start.day = 1 ∧
      Header.decode (reverseWords (startingOn 8 8 0 1) words) ≠
        .ok { header with byteOrder := .littleEndian } := by
  refine ⟨Header.read .bigEndian (startingOn 8 8 0 1), rfl, rfl, rfl, rfl, fun isDecoded => ?_⟩
  have isTaken : Header.decode (reverseWords (startingOn 8 8 0 1) words) =
      .ok (Header.read .bigEndian (reverseWords (startingOn 8 8 0 1) words)) := rfl
  have sameOrder := congrArg Header.byteOrder (Except.ok.inj (isTaken.symm.trans isDecoded))
  cases sameOrder

end Header

end Waveform
