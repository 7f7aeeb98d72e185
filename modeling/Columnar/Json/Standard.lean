import Columnar.Json.Codec
import Columnar.Json.Reader
import Columnar.Size

/-!
# The standard codec

A record is written as an object with its fields in order and without blanks.  On
reading, fields may come in any order and among members of any other name, which
are passed over, and a field that is given twice is refused.  An array gives the
fields in order and may stop early.  A name is written as a string, and an object
whose only member has that name and holds `null` means the same.

## Main definitions

* `Json.takeMember` — what one member gives.
* `Json.recordOfJson?`, `Json.nameOfJson?` — the record or the name a tree denotes.
* `Json.standard` — the codec.
-/

namespace Columnar.Json

/-! ### Writing -/

/-- A text between quotes. -/
def quoted (text : String) : String := "\"" ++ text ++ "\""

/-- The fields of a record with commas between them. -/
def fieldsText : List (String × Nat) → String
  | [] => ""
  | [(name, n)] => quoted name ++ ":" ++ toString n
  | (name, n) :: field :: fields =>
    quoted name ++ ":" ++ toString n ++ "," ++ fieldsText (field :: fields)

/-! ### Reading -/

/-- The size that a tree denotes: a plain natural number in range. -/
def size? : Json → Option Nat
  | .number (some n) => if n < Size.limit then some n else none
  | _ => none

/-- What has been given to the fields of these names after one more member. -/
def takeMember (names : List String) (given : Given) (member : String × Json) : Option Given :=
  if member.1 ∈ names then
    if (given member.1).isSome then none
    else (size? member.2).map (given.give member.1)
  else some given

/-- The members of an object, if all their names denote texts. -/
def named? (members : List (Option String × Json)) : Option (List (String × Json)) :=
  members.mapM fun (name?, value) => name?.map (·, value)

/-- The sizes that the items of an array give to fields, from the first on. -/
def takeItems : List (String × Nat) → List Json → Option (List Nat)
  | fields, [] => some (fields.map Prod.snd)
  | [], _ :: _ => none
  | _ :: fields, item :: items => do
    let n ← size? item
    let ns ← takeItems fields items
    return n :: ns

/-- The sizes that a tree gives to the fields of a record. -/
def recordOfJson? (record : Record) : Json → Option (List Nat)
  | .object members => do
    let members ← named? members
    let given ← members.foldlM (takeMember record.names) .nothing
    return given.fill record
  | .array items => takeItems record.fields items
  | _ => none

/-- The one of these names that a tree denotes. -/
def nameOfJson? (names : List String) : Json → Option String
  | .string (some name) => if name ∈ names then some name else none
  | .object [(some name, .null)] => if name ∈ names then some name else none
  | _ => none

/-- The codec in use. -/
instance standard : Codec where
  writeRecord record := "\x7b" ++ fieldsText record.fields ++ "\x7d"
  takeMember := takeMember
  readRecord record text := parse? text >>= recordOfJson? record
  writeName := quoted
  readName names text := parse? text >>= nameOfJson? names

end Columnar.Json
