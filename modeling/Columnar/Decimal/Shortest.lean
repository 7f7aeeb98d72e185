/-!
# Shortest decimals

A binary number is written with the fewest decimal digits that read back to it.
The numbers that read back form an interval around it, and the decimals with a
given last place form a grid; the first grid, from coarse to fine, with a point
in the interval gives the digits.  All arithmetic is exact.

## Main definitions

* `RoundingInterval` — the reals that round to one binary number.
* `RoundingInterval.onGrid` — the same interval in units of a decimal grid.
* `RoundingInterval.nearestTick` — the grid point that stands for the number.
* `RoundingInterval.shortest` — the digits and the place of the last one.
-/

namespace Columnar.Decimal

/-- The reals that round to one binary number, as fractions over a common
denominator. -/
structure RoundingInterval where
  /-- Numerator of the lower end. -/
  low : Nat
  /-- Numerator of the number itself. -/
  value : Nat
  /-- Numerator of the upper end. -/
  high : Nat
  /-- The common denominator. -/
  denominator : Nat
  /-- Whether the ends belong to the interval.  They do when the mantissa is
  even, since a tie is rounded to the even neighbour. -/
  closed : Bool

namespace RoundingInterval

/-- The interval of `mantissa * 2 ^ exponent`.  Its ends lie half a unit away,
except that the lower end of a power of two lies a quarter away (`narrow`),
because the numbers below it are twice as dense. -/
def ofBinary (mantissa : Nat) (exponent : Int) (narrow : Bool) : RoundingInterval :=
  let quarters := 4 * mantissa
  let scale := Nat.pow 2 (exponent - 2).toNat
  { low := (quarters - if narrow then 1 else 2) * scale
    value := quarters * scale
    high := (quarters + 2) * scale
    denominator := Nat.pow 2 (2 - exponent).toNat
    closed := mantissa % 2 == 0 }

/-- The interval in units of `10 ^ place`. -/
def onGrid (i : RoundingInterval) (place : Int) : RoundingInterval :=
  let up := Nat.pow 10 (-place).toNat
  { i with
    low := i.low * up
    value := i.value * up
    high := i.high * up
    denominator := i.denominator * Nat.pow 10 place.toNat }

/-- Whether the whole number `tick` lies in the interval. -/
def contains (i : RoundingInterval) (tick : Nat) : Bool :=
  let point := tick * i.denominator
  if i.closed then i.low ≤ point && point ≤ i.high else i.low < point && point < i.high

/-- The whole number of the interval that stands for its value, if there is
one: a whole number in the interval exists only if one of the value's two
neighbours is in it.  Of two neighbours the nearer one is taken, and the upper
one in a tie. -/
def nearestTick (i : RoundingInterval) : Option Nat :=
  let down := i.value / i.denominator
  let rest := i.value % i.denominator
  match i.contains down, i.contains (down + 1) with
  | true, true => some (if 2 * rest < i.denominator then down else down + 1)
  | true, false => some down
  | false, true => some (down + 1)
  | false, false => none

/-- The number of decimal digits of a positive whole number. -/
def digitCount (n : Nat) : Nat := (Nat.toDigits 10 n).length

/-- The power of ten just above the value: the `k` with
`10 ^ (k - 1) ≤ value < 10 ^ k`.  Counting the digits of the numerator and the
denominator leaves two candidates, told apart by one comparison. -/
def magnitude (i : RoundingInterval) : Int :=
  let k : Int := digitCount i.value - digitCount i.denominator
  let onGrid := i.onGrid k
  if onGrid.denominator ≤ onGrid.value then k + 1 else k

/-- Moves trailing zeros of the digits into the place. -/
def trim (digits : Nat) (place : Int) : Nat × Int :=
  if h : digits ≠ 0 ∧ digits % 10 = 0 then trim (digits / 10) (place + 1) else (digits, place)
termination_by digits
decreasing_by omega

/-- The most digits a binary64 number needs to read back. -/
def maxDigits : Nat := 17

/-- The shortest digits that read back, with the place of the last one: the
number they denote is `digits * 10 ^ place`. -/
def shortest (i : RoundingInterval) : Nat × Int :=
  let k := i.magnitude
  let found := (List.range maxDigits).findSome? fun (n : Nat) =>
    let place := k - n - 1
    (i.onGrid place).nearestTick.map fun tick => trim tick place
  -- Seventeen digits always read back, so the default is never taken.
  found.getD (0, 0)

end RoundingInterval

end Columnar.Decimal
