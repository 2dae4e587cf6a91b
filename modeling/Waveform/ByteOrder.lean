/-!
# Words in either byte order

Binary records store multi-byte numbers either with the most significant byte first or with the
least significant byte first. A word is the list of its bytes as stored; this module gives the
number it denotes, unsigned or in two's complement, and the bytes a number is stored as.
-/

namespace Waveform

/-- The order in which the bytes of a word are stored. -/
inductive ByteOrder where
  | bigEndian
  | littleEndian
deriving DecidableEq

/-- How many values a word of so many bytes can have. -/
def wordCount (width : Nat) : Nat := Nat.pow 256 width

namespace ByteOrder

/-- The bytes of a stored word, most significant first. -/
def mostSignificantFirst (order : ByteOrder) (word : List UInt8) : List UInt8 :=
  match order with
  | .bigEndian => word
  | .littleEndian => word.reverse

/-- The natural number whose base-256 digits are the given bytes, most significant first. -/
def ofDigits (digits : List UInt8) : Nat :=
  digits.foldl (fun value digit => 256 * value + digit.toNat) 0

/-- The unsigned number a stored word denotes. -/
def unsigned (order : ByteOrder) (word : List UInt8) : Nat :=
  ofDigits (order.mostSignificantFirst word)

/-- The two's complement number a stored word denotes; the word's length is its width. -/
def signed (order : ByteOrder) (word : List UInt8) : Int :=
  Int.bmod (order.unsigned word) (wordCount word.length)

@[simp] theorem mostSignificantFirst_bigEndian (word : List UInt8) :
    bigEndian.mostSignificantFirst word = word := rfl

@[simp] theorem mostSignificantFirst_littleEndian (word : List UInt8) :
    littleEndian.mostSignificantFirst word = word.reverse := rfl

/-- Reversing the bytes of a word exchanges the two orders. -/
theorem unsigned_littleEndian_reverse (word : List UInt8) :
    littleEndian.unsigned word.reverse = bigEndian.unsigned word := by
  simp [unsigned]

end ByteOrder

/-- The `width` bytes of a buffer that start at `offset`, fewer where the buffer ends early. -/
def bytesAt (buffer : List UInt8) (offset width : Nat) : List UInt8 :=
  (buffer.drop offset).take width

/-- The last `width` base-256 digits of an integer's two's complement form, most significant
first. -/
def bigEndianBytes (width : Nat) (value : Int) : List UInt8 :=
  (List.range width).reverse.map fun place => UInt8.ofNat (value / wordCount place % 256).toNat

@[simp] theorem length_bigEndianBytes (width : Nat) (value : Int) :
    (bigEndianBytes width value).length = width := by
  simp [bigEndianBytes]

end Waveform
