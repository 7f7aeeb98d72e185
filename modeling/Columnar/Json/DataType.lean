import Columnar.DataType
import Columnar.Json.Codec

/-!
# Column types as text

A column type is written and read as its name.

## Main definitions

* `DataType.toText`, `DataType.ofText?` — column types as text.
-/

namespace Columnar.DataType

variable [Json.Codec]

/-- The text for a type. -/
def toText (t : DataType) : String := Json.Codec.writeName t.name

/-- The type that a text denotes. -/
def ofText? (text : String) : Option DataType :=
  Json.Codec.readName (all.map name) text >>= ofName?

end Columnar.DataType
