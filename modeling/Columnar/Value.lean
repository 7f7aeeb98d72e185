import Columnar.DataType
import Columnar.Decimal.Positional

/-!
# Cell values

A value is what one cell of a column holds: a null, or a payload of one of the
column types.

## Main definitions

* `Value` — the payloads, and null.
* `Value.type?` — the type of the columns that can hold a value.
* `Value.toText` — how a value is written in messages.
-/

namespace Columnar

/-- The content of one cell. -/
inductive Value
  /-- No value.  Columns of every type can hold it. -/
  | null
  | int (n : Int32)
  | long (n : Int64)
  /-- A binary64 number, bit for bit. -/
  | double (x : Double)
  | boolean (b : Bool)
  | string (s : String)
  deriving DecidableEq, Inhabited, Repr

namespace Value

/-- Equality of values: payloads are compared only within one type, and doubles
as numbers, so that a NaN differs from itself and the zeros agree. -/
instance : BEq Value where
  beq
    | null, null => true
    | int m, int n => m == n
    | long m, long n => m == n
    | double x, double y => x == y
    | boolean a, boolean b => a == b
    | string s, string t => s == t
    | _, _ => false

def isNull : Value → Bool
  | null => true
  | _ => false

/-- The type of the columns that can hold the value; a null has none of its
own. -/
def type? : Value → Option DataType
  | null => none
  | int _ => some .int
  | long _ => some .long
  | double _ => some .double
  | boolean _ => some .boolean
  | string _ => some .varchar

/-- The text of a value: a null is `NULL`, and a string stands between single
quotes, which are not doubled inside it. -/
def toText : Value → String
  | null => "NULL"
  | int n => toString n.toInt
  | long n => toString n.toInt
  | double x => x.toText
  | boolean b => if b then "true" else "false"
  | string s => "'" ++ s ++ "'"

end Value

end Columnar
