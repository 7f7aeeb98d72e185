/-!
# Doubles

A double is kept as its 64 bits in the binary64 layout (sign, eleven exponent
bits, fifty-two fraction bits), so that moving one from place to place never
changes the payload of a NaN or the sign of a zero.  Two comparisons live side
by side: `==` is numeric comparison, under which a NaN differs from itself and
the two zeros agree, and `=` compares the bits.

## Main definitions

* `Double` — the 64 bits.
* `Double.magnitude`, `Double.isNaN`, `Double.isZero` — what the bits say.
* `Double.canonicalBits` — the bits with both zeros and all NaNs identified.
-/

namespace Columnar

/-- A binary64 number, given by its bits. -/
structure Double where
  /-- The bits, sign first. -/
  bits : UInt64
  deriving DecidableEq, Inhabited, Repr

namespace Double

/-- The value of the sign bit, `2 ^ 63`. -/
def signUnit : Nat := 0x8000000000000000

/-- The value of the lowest exponent bit, `2 ^ 52`, which is also that of the
implicit bit of a mantissa. -/
def exponentUnit : Nat := 0x10000000000000

/-- The magnitude of an infinity: all exponent bits set, no fraction bit. -/
def infinityMagnitude : Nat := 0x7ff0000000000000

/-- The bits below the sign bit.  On numbers of one sign they are ordered as
the numbers are. -/
def magnitude (x : Double) : Nat := x.bits.toNat % signUnit

/-- Whether the sign bit is set. -/
def isNegative (x : Double) : Bool := decide (signUnit ≤ x.bits.toNat)

/-- A NaN lies above the infinities. -/
def isNaN (x : Double) : Bool := decide (infinityMagnitude < x.magnitude)

/-- Either infinity. -/
def isInfinite (x : Double) : Bool := x.magnitude == infinityMagnitude

/-- Either zero. -/
def isZero (x : Double) : Bool := x.magnitude == 0

/-- The eleven exponent bits. -/
def biasedExponent (x : Double) : Nat := x.magnitude / exponentUnit

/-- The fifty-two fraction bits. -/
def fraction (x : Double) : Nat := x.magnitude % exponentUnit

/-- Numeric equality: no NaN equals anything, and the zeros equal each other.
All other numbers have one representation each. -/
instance : BEq Double where
  beq x y := !x.isNaN && !y.isNaN && (x.bits == y.bits || (x.isZero && y.isZero))

/-- The bits every NaN is identified with. -/
def canonicalNaN : UInt64 := 0x7ff8000000000000

/-- The bits under which a double is hashed and compared as a key: both zeros
count as `+0`, and all NaNs as one. -/
def canonicalBits (x : Double) : UInt64 :=
  if x.isZero then 0 else if x.isNaN then canonicalNaN else x.bits

end Double

end Columnar
