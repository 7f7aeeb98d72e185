/-!
# Column types

The physical types a column can have, and the kinds of flat list a column of
fixed-width numbers can be copied into.

## Main definitions

* `DataType` — the type of a column.
* `ListKind` — the kind of a flat list.
* `ListKind.ofType?` — the kind of list that takes a column of a given type.
-/

namespace Columnar

/-- The physical type of a column. -/
inductive DataType
  /-- 32-bit signed integers. -/
  | int
  /-- 64-bit signed integers. -/
  | long
  /-- Binary64 numbers. -/
  | double
  /-- Truth values. -/
  | boolean
  /-- Text of any length. -/
  | varchar
  deriving DecidableEq, Repr

/-- A column is of 64-bit integers unless said otherwise. -/
instance : Inhabited DataType := ⟨.long⟩

namespace DataType

/-- All column types. -/
def all : List DataType := [.int, .long, .double, .boolean, .varchar]

/-- The name of a type, as messages and schemas give it. -/
def name : DataType → String
  | int => "Int"
  | long => "Long"
  | double => "Double"
  | boolean => "Boolean"
  | varchar => "Varchar"

/-- The type with a given name. -/
def ofName? (name : String) : Option DataType :=
  all.find? (·.name == name)

/-- The bytes one value takes, for the types whose values all take the same
number of bytes. -/
def fixedSize? : DataType → Option Nat
  | int => some 4
  | long => some 8
  | double => some 8
  | boolean => some 1
  | varchar => none

/-- Whether all values of the type take the same number of bytes. -/
def isFixedWidth (t : DataType) : Bool := t.fixedSize?.isSome

end DataType

/-- The kind of a flat list of numbers. -/
inductive ListKind
  /-- 32-bit signed integers. -/
  | int
  /-- 64-bit signed integers. -/
  | long
  /-- Binary64 numbers. -/
  | double
  deriving DecidableEq, Repr, Inhabited

namespace ListKind

/-- The name of a kind, as messages give it. -/
def name : ListKind → String
  | int => "Int"
  | long => "Long"
  | double => "Double"

/-- The kind of list that takes a column of the given type, if there is one. -/
def ofType? : DataType → Option ListKind
  | .int => some int
  | .long => some long
  | .double => some double
  | .boolean | .varchar => none

/-- The bytes one element takes. -/
def elementSize : ListKind → Nat
  | int => 4
  | long => 8
  | double => 8

end ListKind

end Columnar
