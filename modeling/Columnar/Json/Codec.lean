import Columnar.Json.Basic

/-!
# Records as text

Records of sizes and names out of a fixed choice are written as JSON and read back
by a codec.  Which text it writes is its own affair, and what a record knows is
only the names of its fields and the sizes in them.  On reading, the sizes are the
ones that fields take if the text leaves them out.

## Main definitions

* `Json.Record` — the fields of a record.
* `Json.Given` — the sizes read so far.
* `Json.Codec` — a way to write and read records and names.
-/

namespace Columnar.Json

/-- A character that stands for itself in a string. -/
def Plain (c : Char) : Prop := 0x20 ≤ c.toNat ∧ c ≠ '"' ∧ c ≠ '\\'

/-- A record of sizes: its fields in order, each with its name. -/
structure Record where
  fields : List (String × Nat)
  /-- No two fields have one name. -/
  distinct : (fields.map Prod.fst).Nodup
  /-- Names are written without escapes. -/
  plain : ∀ field ∈ fields, ∀ c ∈ field.1.toList, Plain c

/-- The names of the fields. -/
def Record.names (record : Record) : List String := record.fields.map Prod.fst

/-- The sizes that an object has given to names so far. -/
def Given := String → Option Nat

namespace Given

/-- Before the first member. -/
def nothing : Given := fun _ => none

/-- After a size for one more name. -/
def give (given : Given) (name : String) (n : Nat) : Given :=
  fun other => if other = name then some n else given other

@[simp] theorem give_self (given : Given) (name : String) (n : Nat) :
    given.give name n name = some n := if_pos rfl

theorem give_of_ne {name other : String} (h : other ≠ name) (given : Given) (n : Nat) :
    given.give name n other = given other := if_neg h

/-- What a record holds in the end: the sizes given, and its own for the fields
that got none. -/
def fill (given : Given) (record : Record) : List Nat :=
  record.fields.map fun field => (given field.1).getD field.2

end Given

/-- A way to write and read records and names. -/
class Codec where
  /-- The text for a record. -/
  writeRecord : Record → String
  /-- What has been given to the fields of these names after one more member of an
  object, if the member can stand there. -/
  takeMember : List String → Given → String × Json → Option Given
  /-- The sizes that a text gives to the fields of a record, in their order. -/
  readRecord : Record → String → Option (List Nat)
  /-- The text for a name. -/
  writeName : String → String
  /-- The one of these names that a text denotes. -/
  readName : List String → String → Option String

end Columnar.Json
