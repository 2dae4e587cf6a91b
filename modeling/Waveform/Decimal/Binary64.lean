/-!
# The value of a binary64 number

A finite number of the binary64 format is a sign, a natural significand and a power of two. This
module reads these off the sixty-four bits, so that decimal text can be computed in exact
arithmetic.
-/

namespace Waveform.Decimal

/-- A finite binary64 magnitude `significand * 2 ^ exponent`, with the least exponent of its
binade. -/
structure Magnitude where
  significand : Nat
  exponent : Int
deriving DecidableEq

/-- What the bits of a binary64 number denote. -/
inductive Binary64 where
  | notANumber
  | infinite (negative : Bool)
  | finite (negative : Bool) (magnitude : Magnitude)
deriving DecidableEq

namespace Binary64

/-- Read the sign bit, the eleven exponent bits and the fifty-two fraction bits. -/
def ofBits (bits : UInt64) : Binary64 :=
  let negative := Nat.pow 2 63 ≤ bits.toNat
  let biased : Nat := bits.toNat / Nat.pow 2 52 % Nat.pow 2 11
  let fraction : Nat := bits.toNat % Nat.pow 2 52
  if biased = 2047 then
    if fraction = 0 then .infinite negative else .notANumber
  else if biased = 0 then
    .finite negative ⟨fraction, -1074⟩
  else
    .finite negative ⟨fraction + Nat.pow 2 52, (biased : Int) - 1075⟩

/-- The value of a floating-point number. -/
def ofFloat (value : Float) : Binary64 := ofBits value.toBits

end Binary64

/-- A non-negative rational number as numerator and denominator. -/
structure Quotient where
  numerator : Nat
  denominator : Nat
deriving DecidableEq

namespace Quotient

/-- The quotient times a power of ten. -/
def scale (quotient : Quotient) (power : Int) : Quotient :=
  if 0 ≤ power then
    ⟨quotient.numerator * Nat.pow 10 power.toNat, quotient.denominator⟩
  else
    ⟨quotient.numerator, quotient.denominator * Nat.pow 10 (-power).toNat⟩

/-- The integral part. -/
def floor (quotient : Quotient) : Nat := quotient.numerator / quotient.denominator

/-- The nearest natural number; of two equally near ones the even one. -/
def nearestEven (quotient : Quotient) : Nat :=
  let whole := quotient.floor
  let twiceRest := 2 * (quotient.numerator % quotient.denominator)
  if twiceRest < quotient.denominator then whole
  else if quotient.denominator < twiceRest then whole + 1
  else if whole % 2 = 0 then whole else whole + 1

end Quotient

namespace Magnitude

/-- The magnitude in quarters of its last place, over a denominator that makes these whole. -/
def quarters (magnitude : Magnitude) (count : Nat) : Quotient :=
  if 0 ≤ magnitude.exponent then
    ⟨count * Nat.pow 2 magnitude.exponent.toNat, 4⟩
  else
    ⟨count, 4 * Nat.pow 2 (-magnitude.exponent).toNat⟩

/-- The exact value. -/
def toQuotient (magnitude : Magnitude) : Quotient :=
  magnitude.quarters (4 * magnitude.significand)

end Magnitude

end Waveform.Decimal
