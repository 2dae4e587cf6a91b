import Waveform.Record.Record

/-!
# How many samples are decoded

However a record stores its samples, decoding them gives as many as its header announces, or none of
them at all.
-/

namespace Waveform

theorem FixedWidth.decode_eq_ok_iff {width : Nat} {order : ByteOrder} {payload : List UInt8}
    {count : Nat} {samples : List Int32} :
    decode width order payload count = .ok samples ↔
      neededBytes width count ≤ payload.length ∧
        samples = ((chunks width payload).take count).map fun word =>
          Int32.ofInt (order.signed word) := by
  rw [decode]
  split
  next short =>
    constructor
    · intro isDecoded
      cases isDecoded
    · rintro ⟨enough, _⟩
      exact absurd short (Nat.not_lt.mpr enough)
  next enough =>
    rw [Except.ok.injEq, eq_comm]
    exact (and_iff_right (Nat.not_lt.mp enough)).symm

/-- As many samples are decoded as the payload holds, up to the number that is asked for. -/
theorem FixedWidth.length_of_decode {width : Nat} {order : ByteOrder} {payload : List UInt8}
    {count : Nat} {samples : List Int32}
    (isDecoded : decode width order payload count = .ok samples) :
    samples.length = min count (payload.length / width) := by
  obtain ⟨_, rfl⟩ := decode_eq_ok_iff.mp isDecoded
  rw [List.length_map, List.length_take, length_chunks]

/-- All samples are decoded if their bytes can be addressed. -/
theorem FixedWidth.length_of_decode_addressed {width : Nat} (positive : 0 < width)
    {order : ByteOrder} {payload : List UInt8} {count : Nat} {samples : List Int32}
    (addressed : count * width < UInt64.size)
    (isDecoded : decode width order payload count = .ok samples) : samples.length = count := by
  have enough := (decode_eq_ok_iff.mp isDecoded).1
  rw [neededBytes_eq addressed] at enough
  have fits : count ≤ payload.length / width := (Nat.le_div_iff_mul_le positive).mpr enough
  rw [length_of_decode isDecoded, Nat.min_eq_left fits]

/-- Some samples are decoded exactly if there is a frame and enough differences are unpacked. The
first of these leads to the first sample, which is stored itself. -/
theorem Steim.decode_eq_ok_iff {level : Level} {order : ByteOrder} {payload : List UInt8}
    {count : Nat} {samples : List Int32} (someWanted : count ≠ 0) :
    decode level order payload count = .ok samples ↔
      frameLength ≤ payload.length ∧
        ∃ differences, gather level count ((payloadWords order payload).drop 2) = .ok differences ∧
          count ≤ differences.length ∧
          samples = integrate (Int32.ofBitVec ((payloadWords order payload).headD ⟨0, 0⟩).word)
            ((differences.take count).drop 1) := by
  rw [decode, if_neg someWanted]
  split
  next short =>
    constructor
    · intro isDecoded
      cases isDecoded
    · rintro ⟨enough, _⟩
      exact absurd short (Nat.not_lt.mpr enough)
  next notShort =>
    rw [and_iff_right (Nat.not_lt.mp notShort)]
    dsimp only
    cases gathered : gather level count ((payloadWords order payload).drop 2) with
    | error fault =>
        constructor
        · intro isDecoded
          cases isDecoded
        · rintro ⟨differences, isGathered, _⟩
          cases isGathered
    | ok differences =>
        dsimp only [bind, Except.bind]
        split
        next fewer =>
          constructor
          · intro isDecoded
            cases isDecoded
          · rintro ⟨_, isGathered, enough, _⟩
            cases isGathered
            exact absurd fewer (Nat.not_lt.mpr enough)
        next enough =>
          constructor
          · intro isDecoded
            cases isDecoded
            exact ⟨differences, rfl, Nat.not_lt.mp enough, rfl⟩
          · rintro ⟨_, isGathered, _, rfl⟩
            cases isGathered
            rfl

theorem Steim.length_of_decode {level : Level} {order : ByteOrder} {payload : List UInt8}
    {count : Nat} {samples : List Int32}
    (isDecoded : decode level order payload count = .ok samples) :
    samples.length = count := by
  rcases Nat.eq_zero_or_pos count with rfl | someWanted
  · rw [decode, if_pos rfl] at isDecoded
    cases isDecoded
    rfl
  · obtain ⟨_, differences, _, enough, rfl⟩ :=
      (decode_eq_ok_iff (Nat.ne_of_gt someWanted)).mp isDecoded
    rw [length_integrate, List.length_drop, List.length_take, Nat.min_eq_left enough]
    exact Nat.sub_add_cancel someWanted

theorem Encoding.length_of_decode {encoding : Encoding} {order : ByteOrder} {payload : List UInt8}
    {count : Nat} {samples : List Int32} (addressed : count * encoding.sampleWidth < UInt64.size)
    (isDecoded : encoding.decode order payload count = .ok samples) : samples.length = count := by
  cases encoding with
  | integers16 => exact FixedWidth.length_of_decode_addressed (by decide) addressed isDecoded
  | integers32 => exact FixedWidth.length_of_decode_addressed (by decide) addressed isDecoded
  | steim level => exact Steim.length_of_decode isDecoded

/-- Whether the bytes of so many samples, of the encoding with a code, can be addressed. This is no
condition where samples are compressed. -/
def AreAddressed (code count : Nat) : Prop :=
  ∀ encoding, Encoding.ofCode? code = some encoding → count * encoding.sampleWidth < UInt64.size

/-- The samples that a header can announce can be addressed. -/
theorem areAddressed_of_lt {count : Nat} (few : count < UInt16.size) (code : Nat) :
    AreAddressed code count := by
  intro encoding _
  have narrow : encoding.sampleWidth ≤ 4 := by
    cases encoding with
    | integers16 => decide
    | integers32 => decide
    | steim => exact Nat.zero_le 4
  exact Nat.lt_of_le_of_lt (Nat.mul_le_mul_left count narrow)
    (Nat.lt_of_lt_of_le (Nat.mul_lt_mul_of_pos_right few (by decide)) (by decide))

theorem length_of_decodePayload {code : Nat} {order : ByteOrder} {payload : List UInt8}
    {count : Nat} {samples : List Int32} (areAddressed : AreAddressed code count)
    (isDecoded : decodePayload code order payload count = .ok samples) :
    samples.length = count := by
  rw [decodePayload] at isDecoded
  split at isDecoded
  next encoding isEncoding =>
    exact Encoding.length_of_decode (areAddressed encoding isEncoding) isDecoded
  next => cases isDecoded

/-- A record whose samples can be decoded has as many as its header says. -/
theorem Record.length_samples {record : Record} {samples : List Int32}
    (few : record.header.sampleCount < UInt16.size)
    (isDecoded : record.samples = .ok samples) : samples.length = record.header.sampleCount := by
  rw [Record.samples] at isDecoded
  split at isDecoded
  next => cases isDecoded
  next format _ =>
    dsimp only at isDecoded
    split at isDecoded
    next =>
      cases decoded : decodePayload format.encoding format.byteOrder
          (record.bytes.drop record.header.dataOffset) record.header.sampleCount with
      | error error =>
          rw [decoded] at isDecoded
          cases isDecoded
      | ok found =>
          rw [decoded] at isDecoded
          cases isDecoded
          exact length_of_decodePayload (areAddressed_of_lt few _) decoded
    next => cases isDecoded

end Waveform
