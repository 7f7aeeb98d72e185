import Columnar.Decimal.Shortest
import Columnar.Double

/-!
# Positional notation of doubles

A double is written with its shortest digits and never with an exponent: zeros
fill the gap up to the decimal point on either side.  A whole number has no
point, and a zero keeps its sign.

## Main definitions

* `positional` — digits and a place, laid out around the decimal point.
* `Double.interval` — the reals that round to a double.
* `Double.toText` — the text of a double.
-/

namespace Columnar

namespace Decimal

/-- The text of `digits * 10 ^ place` without an exponent. -/
def positional (digits : Nat) (place : Int) : String :=
  let text := Nat.toDigits 10 digits
  let places := (-place).toNat
  let zeros (n : Nat) : List Char := List.replicate n '0'
  if places = 0 then
    String.ofList (text ++ zeros place.toNat)
  else if places < text.length then
    String.ofList (text.take (text.length - places) ++ '.' :: text.drop (text.length - places))
  else
    String.ofList ('0' :: '.' :: zeros (places - text.length) ++ text)

end Decimal

namespace Double

/-- The reals that round to the magnitude of a finite, non-zero double.  Its
exponent is biased by 1075 when the mantissa is read as a whole number;
subnormal numbers share the exponent of the smallest normal ones and lack the
implicit bit. -/
def interval (x : Double) : Decimal.RoundingInterval :=
  if x.biasedExponent = 0 then
    .ofBinary x.fraction (-1074) false
  else
    .ofBinary (exponentUnit + x.fraction) (x.biasedExponent - 1075)
      (x.fraction == 0 && 1 < x.biasedExponent)

/-- The text of a double: the shortest digits that read back, in positional
notation. -/
def toText (x : Double) : String :=
  if x.isNaN then "NaN"
  else
    let magnitude :=
      if x.isInfinite then "inf"
      else if x.isZero then "0"
      else
        let (digits, place) := x.interval.shortest
        Decimal.positional digits place
    if x.isNegative then "-" ++ magnitude else magnitude

end Double

end Columnar
