import Waveform.ByteOrder

/-!
# MD5 digests

The digest of a byte stream, taken while the stream is read: a hasher holds the chaining words,
the bytes of the block not yet full, and the number of bytes seen. Absorbing is byte by byte, so
absorbing two pieces one after the other is absorbing their concatenation.
-/

namespace Waveform.Md5

/-- The four chaining words. -/
structure Chain where
  a : UInt32
  b : UInt32
  c : UInt32
  d : UInt32
deriving DecidableEq

/-- The chaining words before the first block. -/
def Chain.initial : Chain := ⟨0x67452301, 0xefcdab89, 0x98badcfe, 0x10325476⟩

/-- The additive constants, one a step: the integer part of `2 ^ 32 * |sin (step + 1)|`. -/
def sineTable : List UInt32 :=
  [0xd76aa478, 0xe8c7b756, 0x242070db, 0xc1bdceee, 0xf57c0faf, 0x4787c62a, 0xa8304613, 0xfd469501,
   0x698098d8, 0x8b44f7af, 0xffff5bb1, 0x895cd7be, 0x6b901122, 0xfd987193, 0xa679438e, 0x49b40821,
   0xf61e2562, 0xc040b340, 0x265e5a51, 0xe9b6c7aa, 0xd62f105d, 0x02441453, 0xd8a1e681, 0xe7d3fbc8,
   0x21e1cde6, 0xc33707d6, 0xf4d50d87, 0x455a14ed, 0xa9e3e905, 0xfcefa3f8, 0x676f02d9, 0x8d2a4c8a,
   0xfffa3942, 0x8771f681, 0x6d9d6122, 0xfde5380c, 0xa4beea44, 0x4bdecfa9, 0xf6bb4b60, 0xbebfbc70,
   0x289b7ec6, 0xeaa127fa, 0xd4ef3085, 0x04881d05, 0xd9d4d039, 0xe6db99e5, 0x1fa27cf8, 0xc4ac5665,
   0xf4292244, 0x432aff97, 0xab9423a7, 0xfc93a039, 0x655b59c3, 0x8f0ccc92, 0xffeff47d, 0x85845dd1,
   0x6fa87e4f, 0xfe2ce6e0, 0xa3014314, 0x4e0811a1, 0xf7537e82, 0xbd3af235, 0x2ad7d2bb, 0xeb86d391]

/-- The rotation of a step: four amounts a round, taken in turn. -/
def rotation (step : Nat) : UInt32 :=
  match step / 16, step % 4 with
  | 0, 0 => 7 | 0, 1 => 12 | 0, 2 => 17 | 0, _ => 22
  | 1, 0 => 5 | 1, 1 => 9 | 1, 2 => 14 | 1, _ => 20
  | 2, 0 => 4 | 2, 1 => 11 | 2, 2 => 16 | 2, _ => 23
  | _, 0 => 6 | _, 1 => 10 | _, 2 => 15 | _, _ => 21

/-- The mixing function of a step and the message word it takes. -/
def mixing (step : Nat) (chain : Chain) : UInt32 × Nat :=
  let ⟨_, b, c, d⟩ := chain
  match step / 16 with
  | 0 => ((b &&& c) ||| (~~~b &&& d), step)
  | 1 => ((d &&& b) ||| (~~~d &&& c), (5 * step + 1) % 16)
  | 2 => (b ^^^ c ^^^ d, (3 * step + 5) % 16)
  | _ => (c ^^^ (b ||| ~~~d), (7 * step) % 16)

/-- Rotate a word to the left by an amount between 1 and 31. -/
def rotateLeft (word amount : UInt32) : UInt32 :=
  (word <<< amount) ||| (word >>> (32 - amount))

/-- One of the sixty-four steps on a block. -/
def stepWord (words : List UInt32) (chain : Chain) (numbered : UInt32 × Nat) : Chain :=
  let (constant, step) := numbered
  let (mixed, position) := mixing step chain
  let sum := chain.a + mixed + constant + words.getD position 0
  ⟨chain.d, chain.b + rotateLeft sum (rotation step), chain.b, chain.c⟩

/-- The little-endian words of a block. -/
def wordsOf : List UInt8 → List UInt32
  | b0 :: b1 :: b2 :: b3 :: rest =>
      (b0.toUInt32 ||| (b1.toUInt32 <<< 8) ||| (b2.toUInt32 <<< 16) ||| (b3.toUInt32 <<< 24)) ::
        wordsOf rest
  | _ => []

/-- Fold one block of sixty-four bytes into the chaining words. -/
def compress (chain : Chain) (block : List UInt8) : Chain :=
  let mixed := sineTable.zipIdx.foldl (stepWord (wordsOf block)) chain
  ⟨chain.a + mixed.a, chain.b + mixed.b, chain.c + mixed.c, chain.d + mixed.d⟩

/-- The state of a digest that is being taken. -/
structure Hasher where
  chain : Chain
  /-- The bytes of the unfinished block, last one first. -/
  pending : List UInt8
  /-- How many bytes have been absorbed. -/
  length : Nat
deriving DecidableEq

namespace Hasher

/-- The hasher that has seen nothing. -/
def initial : Hasher := ⟨Chain.initial, [], 0⟩

/-- Take one more byte; the sixty-fourth of a block completes it. -/
def absorbByte (hasher : Hasher) (byte : UInt8) : Hasher :=
  if hasher.length % 64 = 63 then
    ⟨compress hasher.chain (byte :: hasher.pending).reverse, [], hasher.length + 1⟩
  else
    ⟨hasher.chain, byte :: hasher.pending, hasher.length + 1⟩

/-- Take a run of bytes. -/
def absorb (hasher : Hasher) (bytes : List UInt8) : Hasher :=
  bytes.foldl absorbByte hasher

/-- Pieces absorbed in turn count as their concatenation. -/
theorem absorb_append (hasher : Hasher) (first second : List UInt8) :
    hasher.absorb (first ++ second) = (hasher.absorb first).absorb second := by
  simp [absorb]

/-- The bytes that close the message: a one bit, zeros, and the message's length in bits in
eight bytes, least significant first. -/
def padding (length : Nat) : List UInt8 :=
  0x80 :: List.replicate ((119 - length % 64) % 64) 0 ++
    (bigEndianBytes 8 (8 * length)).reverse

/-- The sixteen bytes of the digest. -/
def digest (hasher : Hasher) : List UInt8 :=
  let ⟨a, b, c, d⟩ := (hasher.absorb (padding hasher.length)).chain
  [a, b, c, d].flatMap fun (word : UInt32) =>
    [word.toUInt8, (word >>> 8).toUInt8, (word >>> 16).toUInt8, (word >>> 24).toUInt8]

end Hasher

/-- One hexadecimal digit, in lower case. -/
def hexDigit (value : Nat) : Char :=
  if value < 10 then Char.ofNat (48 + value) else Char.ofNat (87 + value)

/-- Two lower-case hexadecimal digits a byte. -/
def hexText (bytes : List UInt8) : String :=
  String.ofList (bytes.flatMap fun byte => [hexDigit (byte.toNat / 16), hexDigit (byte.toNat % 16)])

/-- The digest of a byte list as thirty-two hexadecimal digits. -/
def text (bytes : List UInt8) : String :=
  hexText (Hasher.initial.absorb bytes).digest

end Waveform.Md5
