import Columnar.Block.Basic
import Columnar.Hash.Basic

/-!
# Comparing and hashing cells

Cells of any two blocks can be compared, and are hashed so that equal cells
have equal codes.  Integers of both widths are compared and hashed as 64-bit
ones.  Doubles are compared and hashed by their canonical bits, under which the
two zeros are one number and all NaNs are one.  A null equals only a null.
Otherwise cells of different types are different.

The rule is said once more by the key of a cell: what is left of it once the
distinctions that do not count are dropped.

## Main definitions

* `Block.equals` — whether two cells are equal.
* `Block.hashCode` — the hash code of a cell.
* `CellKey`, `Block.key` — the key of a cell.
-/

namespace Columnar

namespace Block

/-- Whether two payloads are equal; those of different types are not, but for
the two widths of integers. -/
def samePayload (a : Block) (i : Nat) (b : Block) (j : Nat) : Result Bool :=
  match a, b with
  | int _, int _ | int _, long _ | long _, int _ | long _, long _ => do
    return (← a.getLong i) == (← b.getLong j)
  | double c, double d => do
    return (← c.get i).canonicalBits == (← d.get j).canonicalBits
  | boolean c, boolean d => do
    return (← c.get i) == (← d.get j)
  | varchar c, varchar d => do
    return (← c.get i) == (← d.get j)
  | _, _ => return false

/-- Whether the cell at `i` equals the cell at `j` of another block. -/
def equals (a : Block) (i : Nat) (b : Block) (j : Nat) : Result Bool := do
  match ← a.isNull i, ← b.isNull j with
  | true, true => return true
  | true, false | false, true => return false
  | false, false => a.samePayload i b j

/-- The hash code of a cell, for a hash function of payloads. -/
def hashCode [PayloadHash] (b : Block) (position : Nat) : Result UInt64 := do
  if ← b.isNull position then return Hash.null
  match b with
  | int c => return PayloadHash.ofInt64 (← c.get position).toInt64
  | long c => return PayloadHash.ofInt64 (← c.get position)
  | double c => return PayloadHash.ofBits (← c.get position).canonicalBits
  | boolean c => return PayloadHash.ofBool (← c.get position)
  | varchar c => return PayloadHash.ofString (← c.get position)

end Block

/-! ### Keys -/

/-- What counts of a cell when it is compared. -/
inductive CellKey
  | null
  /-- An integer of either width. -/
  | integer (n : Int64)
  /-- A double, by its canonical bits. -/
  | double (bits : UInt64)
  | boolean (b : Bool)
  | string (s : String)
  deriving DecidableEq, Repr

def Value.key : Value → CellKey
  | null => .null
  | int n => .integer n.toInt64
  | long n => .integer n
  | double x => .double x.canonicalBits
  | boolean b => .boolean b
  | string s => .string s

/-- The key of the cell at a position. -/
def Block.key (b : Block) (position : Nat) : Result CellKey := Value.key <$> b.getValue position

end Columnar
