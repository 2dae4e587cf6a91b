import Waveform.Decimal.Binary64

/-!
# Shortest decimal text

The fewest decimal digits that read back as the same binary64 number, and among those the digits
nearest to the exact value. A number is tried on coarser to finer decimal grids; on each grid only
the two neighbours of the exact value need testing, because every other grid point lies farther
away on the same side.
-/

namespace Waveform.Decimal

/-- The decimal number `digits * 10 ^ power`. -/
structure Scientific where
  digits : Nat
  power : Int
deriving DecidableEq

namespace Magnitude

/-- The interval of real numbers that round to this magnitude, as numbers of quarters of the last
place: the lower half is narrower at the bottom of a binade. -/
def roundingBounds (magnitude : Magnitude) : Nat × Nat :=
  let centre := 4 * magnitude.significand
  let below := if magnitude.significand = Nat.pow 2 52 ∧ -1074 < magnitude.exponent then 1 else 2
  (centre - below, centre + 2)

/-- Whether the decimal number reads back as this magnitude. The ends of the rounding interval
belong to it exactly when the significand is even. -/
def readsBack (magnitude : Magnitude) (candidate : Scientific) : Bool :=
  let (lower, upper) := magnitude.roundingBounds
  let unit := (magnitude.quarters 1).scale (-candidate.power)
  let value := candidate.digits * unit.denominator
  if magnitude.significand % 2 = 0 then
    lower * unit.numerator ≤ value ∧ value ≤ upper * unit.numerator
  else
    lower * unit.numerator < value ∧ value < upper * unit.numerator

/-- The power of ten of the leading decimal digit of a positive magnitude. -/
def leadingPower (magnitude : Magnitude) : Int :=
  let ⟨numerator, denominator⟩ := magnitude.toQuotient
  if denominator ≤ numerator then
    ((Nat.toDigits 10 (numerator / denominator)).length : Int) - 1
  else
    -((Nat.toDigits 10 ((denominator + numerator - 1) / numerator - 1)).length : Int)

/-- The candidate on the grid of so many digits: of the exact value's neighbours that read back
the nearer one, and of two equally near ones the greater. -/
def candidate? (magnitude : Magnitude) (digitCount : Nat) : Option Scientific :=
  let power := magnitude.leadingPower - (digitCount : Int) + 1
  let exact := magnitude.toQuotient.scale (-power)
  let below : Scientific := ⟨exact.floor, power⟩
  let above : Scientific := ⟨exact.floor + 1, power⟩
  match magnitude.readsBack below, magnitude.readsBack above with
  | true, true =>
      if 2 * (exact.numerator % exact.denominator) < exact.denominator then some below
      else some above
  | true, false => some below
  | false, true => some above
  | false, false => none

/-- The shortest decimal number that reads back as a positive magnitude; seventeen digits always
suffice. -/
def shortest (magnitude : Magnitude) : Scientific :=
  ((List.range 17).findSome? fun index => magnitude.candidate? (index + 1)).getD ⟨0, 0⟩

end Magnitude

namespace Scientific

/-- Digits with a decimal point before the last `places` of them, without zeros at the end. -/
def withPoint (digits : Nat) (places : Nat) : String :=
  let fraction := toString (digits % Nat.pow 10 places)
  let padded := String.ofList (List.replicate (places - fraction.length) '0') ++ fraction
  let kept := (padded.toList.reverse.dropWhile (· = '0')).reverse
  let whole := toString (digits / Nat.pow 10 places)
  if places = 0 ∨ kept = [] then whole else whole ++ "." ++ String.ofList kept

/-- Positional text: never an exponent, and no point for a whole number. -/
def positional (number : Scientific) : String :=
  if 0 ≤ number.power then
    toString (number.digits * Nat.pow 10 number.power.toNat)
  else
    withPoint number.digits (-number.power).toNat

end Scientific

/-- The text of a floating-point number in messages: the shortest digits, written positionally. A
negative zero keeps its sign. -/
def shortestText (value : Float) : String :=
  match Binary64.ofFloat value with
  | .notANumber => "NaN"
  | .infinite negative => (if negative then "-" else "") ++ "inf"
  | .finite negative magnitude =>
      (if negative then "-" else "") ++
        (if magnitude.significand = 0 then "0" else magnitude.shortest.positional)

/-- The text of a finite floating-point number in a report: as in messages, but a whole number
keeps one zero after the point. -/
def reportText (value : Float) : String :=
  let text := shortestText value
  if text.toList.contains '.' then text else text ++ ".0"

end Waveform.Decimal
