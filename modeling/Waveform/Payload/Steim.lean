import Waveform.ByteOrder
import Waveform.Payload.Chunks
import Waveform.Payload.PayloadError

/-!
# Steim compression

Compressed samples are stored as differences, packed into the data words of sixty-four-byte frames.
A frame is a word of nibbles and fifteen data words; each nibble of two bits tells how the data
word at its place is packed, at the second level of compression together with two bits of the word
itself. The first two data words of the first frame hold the first and the last sample instead. The
first difference leads from the record before to the first sample and is not used.
-/

namespace Waveform.Steim

/-- The two levels of compression, which differ in how differences are packed. -/
inductive Level where
  | one
  | two
deriving DecidableEq

/-- How many bytes a frame has. -/
def frameLength : Nat := 64

/-- How differences share a data word: so many, of so many bits each, at the word's low end with
the first one highest. -/
structure Packing where
  count : Nat
  width : Nat
deriving DecidableEq

namespace Packing

/-- The packing that a nibble and the word's two highest bits stand for. Nibble zero marks a word
without differences. -/
def ofCodes (level : Level) (nibble topBits : Nat) : Except PayloadError Packing :=
  match level, nibble, topBits with
  | _, 0, _ => .ok ⟨0, 0⟩
  | _, 1, _ => .ok ⟨4, 8⟩
  | .one, 2, _ => .ok ⟨2, 16⟩
  | .one, _, _ => .ok ⟨1, 32⟩
  | .two, 2, 1 => .ok ⟨1, 30⟩
  | .two, 2, 2 => .ok ⟨2, 15⟩
  | .two, 2, 3 => .ok ⟨3, 10⟩
  | .two, 2, _ => .error (.packing topBits 2)
  | .two, _, 0 => .ok ⟨5, 6⟩
  | .two, _, 1 => .ok ⟨6, 5⟩
  | .two, _, 2 => .ok ⟨7, 4⟩
  | .two, _, _ => .error (.packing topBits 3)

/-- The difference at a place of a data word, counted from the last one. -/
def differenceAt (packing : Packing) (word : BitVec 32) (place : Nat) : Int32 :=
  Int32.ofBitVec ((word.extractLsb' (packing.width * place) packing.width).signExtend 32)

/-- The differences of a data word, first one first. -/
def differences (packing : Packing) (word : BitVec 32) : List Int32 :=
  (List.range packing.count).reverse.map (packing.differenceAt word)

@[simp] theorem length_differences (packing : Packing) (word : BitVec 32) :
    (packing.differences word).length = packing.count := by
  simp [differences]

end Packing

/-- A data word together with its nibble. -/
structure DataWord where
  nibble : Nat
  word : BitVec 32
deriving DecidableEq

namespace DataWord

/-- The differences of a data word. -/
def differences (level : Level) (data : DataWord) : Except PayloadError (List Int32) :=
  (Packing.ofCodes level data.nibble (data.word >>> 30).toNat).map fun packing =>
    packing.differences data.word

end DataWord

/-- The word that four stored bytes denote. -/
def wordOf (order : ByteOrder) (bytes : List UInt8) : BitVec 32 :=
  BitVec.ofNat 32 (order.unsigned bytes)

/-- The nibble of the data word at a place of a frame; the frame's own word has place zero. -/
def nibbleAt (nibbles : BitVec 32) (place : Nat) : Nat := (nibbles >>> (30 - 2 * place)).toNat % 4

/-- The data words of a frame with their nibbles. -/
def frameWords (order : ByteOrder) (frame : List UInt8) : List DataWord :=
  let words := (chunks 4 frame).map (wordOf order)
  words.zipIdx.tail.map fun (word, place) => ⟨nibbleAt (words.headD 0) place, word⟩

/-- The data words of all frames of a payload. -/
def payloadWords (order : ByteOrder) (payload : List UInt8) : List DataWord :=
  (chunks frameLength payload).flatMap (frameWords order)

/-- Unpack data words until `wanted` differences are there or the words end. A word is unpacked as a
whole, so that there may be more. -/
def gather (level : Level) : (wanted : Nat) → List DataWord → Except PayloadError (List Int32)
  | 0, _ => .ok []
  | _ + 1, [] => .ok []
  | wanted + 1, data :: rest => do
      let here ← data.differences level
      let later ← gather level (wanted + 1 - here.length) rest
      .ok (here ++ later)

/-- The running sums of differences, from a first sample on. -/
def integrate (first : Int32) : List Int32 → List Int32
  | [] => [first]
  | difference :: rest => first :: integrate (first + difference) rest

/-- Decode `count` samples of a compressed payload. -/
def decode (level : Level) (order : ByteOrder) (payload : List UInt8) (count : Nat) :
    Except PayloadError (List Int32) :=
  if count = 0 then .ok []
  else if payload.length < frameLength then .error (.noFrame payload.length frameLength)
  else do
    let words := payloadWords order payload
    let first := Int32.ofBitVec (words.headD ⟨0, 0⟩).word
    let differences ← gather level count (words.drop 2)
    if differences.length < count then
      .error (.tooFewDifferences count differences.length)
    else .ok (integrate first ((differences.take count).drop 1))

@[simp] theorem length_integrate (first : Int32) (differences : List Int32) :
    (integrate first differences).length = differences.length + 1 := by
  induction differences generalizing first with
  | nil => rfl
  | cons difference rest ih => simp [integrate, ih]

end Waveform.Steim
