import Columnar.Json.Codec
import Columnar.Options

/-!
# Options as text

The options of an index are written and read as a record of their two fields, with
the usual options for fields that are left out.

## Main definitions

* `IndexOptions.record` — options as a record.
* `IndexOptions.toText`, `IndexOptions.ofText?` — options as text.
-/

namespace Columnar.IndexOptions

/-- Options as a record. -/
def record (options : IndexOptions) : Json.Record where
  fields := [("chunk_capacity", options.chunkCapacity), ("max_chunk_rows", options.maxChunkRows)]
  distinct := by simp
  plain := by simp [Json.Plain]

/-- The options with these sizes in their fields. -/
def ofSizes? : List Nat → Option IndexOptions
  | [chunkCapacity, maxChunkRows] => some { chunkCapacity, maxChunkRows }
  | _ => none

variable [Json.Codec]

/-- The text for options. -/
def toText (options : IndexOptions) : String := Json.Codec.writeRecord options.record

/-- The options that a text denotes. -/
def ofText? (text : String) : Option IndexOptions :=
  Json.Codec.readRecord usual.record text >>= ofSizes?

end Columnar.IndexOptions
