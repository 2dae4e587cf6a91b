import Waveform.Decimal.Binary64

/-!
# Decimal text with a fixed number of places

The exact binary value rounded to a number of decimal places; a tie goes to the even digit.
-/

namespace Waveform.Decimal

/-- A number of units of the last decimal place, written with that many places. -/
def placesText (units places : Nat) : String :=
  if places = 0 then toString units
  else
    let fraction := toString (units % Nat.pow 10 places)
    toString (units / Nat.pow 10 places) ++ "." ++
      String.ofList (List.replicate (places - fraction.length) '0') ++ fraction

/-- A floating-point number rounded to a fixed number of decimal places. The sign of a negative
number is kept when it rounds to zero. -/
def fixedText (value : Float) (places : Nat) : String :=
  match Binary64.ofFloat value with
  | .notANumber => "NaN"
  | .infinite negative => (if negative then "-" else "") ++ "inf"
  | .finite negative magnitude =>
      (if negative then "-" else "") ++
        placesText (magnitude.toQuotient.scale places).nearestEven places

end Waveform.Decimal
