/-!
# Hashing of payloads

The hash code of a cell is that of its payload, which some fixed hash function
gives; a null has a code of its own.  Which hash function it is does not matter to
anything that compares codes, so it is left open here.

## Main definitions

* `PayloadHash` — a hash function for payloads.
* `Hash.null`, `Hash.combine` — the code of a null, and of a row.
-/

namespace Columnar

/-- A hash function: a code for every payload, by its type. -/
class PayloadHash where
  /-- The code of an integer of either width. -/
  ofInt64 : Int64 → UInt64
  /-- The code of a double with the given bits. -/
  ofBits : UInt64 → UInt64
  ofBool : Bool → UInt64
  ofString : String → UInt64

namespace Hash

/-- The code of a null. -/
def null : UInt64 := 0

/-- Takes the code of one more column into the code of a row. -/
def combine (row cell : UInt64) : UInt64 := row * 31 + cell

end Hash

end Columnar
