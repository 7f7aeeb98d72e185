/-!
# JSON numbers

A number is an optional minus sign, a whole part without leading zeros, and
optionally a fraction and an exponent.  Only the value of a plain whole part is
kept.

## Main definitions

* `Numeral` — how a number is written.
* `Numeral.read` — a number at the front of a text.
-/

namespace Columnar.Json

/-- How a number is written. -/
structure Numeral where
  /-- Whether there is a minus sign. -/
  negative : Bool
  /-- The digits of the whole part. -/
  whole : List Char
  /-- Whether there is a fraction or an exponent. -/
  scaled : Bool
  deriving DecidableEq, Repr

namespace Numeral

/-- The number that decimal digits denote. -/
def digitsValue (digits : List Char) : Nat :=
  digits.foldl (fun n c => n * 10 + (c.toNat - '0'.toNat)) 0

/-- The value of a number that is written as a plain natural number. -/
def natural? (n : Numeral) : Option Nat :=
  if n.negative || n.scaled then none else some (digitsValue n.whole)

/-- One or more digits at the front, and what follows them. -/
def readDigits (cs : List Char) : Option (List Char × List Char) :=
  let digits := cs.takeWhile Char.isDigit
  if digits.isEmpty then none else some (digits, cs.dropWhile Char.isDigit)

/-- A whole part at the front: a zero alone, or digits that do not begin with
one. -/
def readWhole (cs : List Char) : Option (List Char × List Char) := do
  let (digits, rest) ← readDigits cs
  guard (digits.head? ≠ some '0' || digits.length = 1)
  return (digits, rest)

/-- Drops a fraction, if there is one, and says whether there was. -/
def skipFraction : List Char → Option (Bool × List Char)
  | '.' :: cs => do
    let (_, rest) ← readDigits cs
    return (true, rest)
  | cs => some (false, cs)

/-- Drops the sign of an exponent, if there is one. -/
def skipSign : List Char → List Char
  | '+' :: cs => cs
  | '-' :: cs => cs
  | cs => cs

/-- Drops an exponent, if there is one, and says whether there was. -/
def skipExponent : List Char → Option (Bool × List Char)
  | c :: cs =>
    if c = 'e' ∨ c = 'E' then do
      let (_, rest) ← readDigits (skipSign cs)
      return (true, rest)
    else some (false, c :: cs)
  | [] => some (false, [])

/-- The number at the front of a text, and what follows it. -/
def read (cs : List Char) : Option (Numeral × List Char) := do
  let negative := cs.head? == some '-'
  let (whole, rest) ← readWhole (if negative then cs.tail else cs)
  let (fraction, rest) ← skipFraction rest
  let (exponent, rest) ← skipExponent rest
  return (⟨negative, whole, fraction || exponent⟩, rest)

end Numeral

end Columnar.Json
