import Columnar.Limits
import Columnar.Value

/-!
# Failures

Every operation that can go wrong says why with a `Failure`.  There are four
kinds of cause.

* A `Refusal` answers a request that a careful caller may well make: an index
  that is full, a chunk that is too large, columns of unequal length.
* A `Misuse` answers a call that breaks the rules of an interface: reading past
  the end of an index, a cache opened twice, a value of the wrong type.
* `outOfBounds` answers an access outside a sequence.
* `overflow` answers a count that leaves the range of sizes.

## Main definitions

* `Refusal`, `Misuse`, `Failure` — the causes.
* `Refusal.message`, `Misuse.message` — their wording.
-/

namespace Columnar

/-! ### Refusals -/

/-- What is wrong with the options of an index or of a list source. -/
inductive OptionFault
  /-- The largest number of rows per chunk is not in the admitted range. -/
  | rowLimit (given : Nat)
  /-- A key column that the schema, of the given width, does not have. -/
  | keyColumn (column width : Nat)
  /-- A fault in the caller's own words. -/
  | other (text : String)
  deriving DecidableEq, Repr

def OptionFault.message : OptionFault → String
  | rowLimit given =>
    let limit := Limits.maxChunkRows
    s!"max_chunk_rows must be between 1 and {limit}, got {given}"
  | keyColumn column width =>
    s!"key column {column} is out of range for a {width}-column schema"
  | other text => text

/-- Why a request is refused. -/
inductive Refusal
  /-- The index would hold more chunks than can be addressed. -/
  | tooManyChunks (chunks limit : Nat)
  /-- The chunk has more rows than the index accepts. -/
  | chunkTooLarge (rows limit : Nat)
  /-- The pair does not fit the two fields of an address. -/
  | addressOverflow (chunkId offset : Nat)
  /-- A column has another length than the first one. -/
  | blockLengthMismatch (block expected actual : Nat)
  /-- No flat list takes a column of this type. -/
  | unsupportedTypedColumn (column : Nat) (type : DataType)
  | invalidOptions (fault : OptionFault)
  deriving DecidableEq, Repr

def Refusal.message : Refusal → String
  | tooManyChunks chunks limit =>
    s!"chunk count {chunks} exceeds the address space limit of {limit} chunks"
  | chunkTooLarge rows limit =>
    s!"chunk with {rows} rows exceeds the per-chunk limit of {limit} rows"
  | addressOverflow chunkId offset =>
    s!"address ({chunkId}, {offset}) does not fit the synthetic address layout"
  | blockLengthMismatch block expected actual =>
    s!"block {block} has {actual} positions, expected {expected}"
  | unsupportedTypedColumn column type =>
    s!"column {column} of type {type.name} cannot be cached as a typed list"
  | invalidOptions fault => "invalid index options: " ++ fault.message

/-! ### Misuses -/

/-- The typed reads of blocks and flat lists. -/
inductive Getter
  | int
  | long
  | double
  | bool
  | str
  deriving DecidableEq, Repr

/-- The name of a typed read, as messages give it. -/
def Getter.name : Getter → String
  | int => "get_int"
  | long => "get_long"
  | double => "get_double"
  | bool => "get_bool"
  | str => "get_str"

/-- The changes of an index that its open cache forbids. -/
inductive GuardedCall
  | append
  | merge
  /-- Choosing what the cache holds. -/
  | setSource
  deriving DecidableEq, Repr

/-- The name of a guarded call, as messages give it. -/
def GuardedCall.name : GuardedCall → String
  | append => "add_chunk"
  | merge => "merge"
  | setSource => "set_typed_list_handle"

/-- The stages in the life of a cache. -/
inductive CacheStage
  /-- Nothing is allocated yet. -/
  | unopened
  /-- The lists exist and can be filled and read. -/
  | opened
  /-- The lists are gone for good. -/
  | closed
  deriving DecidableEq, Repr

/-- The name of a stage, as messages give it. -/
def CacheStage.name : CacheStage → String
  | unopened => "unopened"
  | opened => "open"
  | closed => "closed"

/-- Which rule of an interface a call breaks. -/
inductive Misuse
  /-- A bit past the end of a bitmap. -/
  | bitOutOfBounds (index length : Nat)
  /-- A chunk id too large for its field of an address. -/
  | chunkIdOutOfRange (chunkId : Nat)
  /-- An offset too large for its field of an address. -/
  | offsetOutOfRange (offset : Nat)
  /-- A pair that does not fit an address. -/
  | unaddressable (chunkId offset : Nat)
  /-- A negative number taken for an address. -/
  | notAnAddress (raw : Int64)
  /-- A null mask whose length is not the number of values. -/
  | nullMaskLength (mask values : Nat)
  /-- A row whose length is not the number of columns. -/
  | rowLength (row columns : Nat)
  /-- A typed read of a block of another type. -/
  | blockRead (getter : Getter) (type : DataType)
  /-- A typed read of a list of another kind. -/
  | listRead (getter : Getter) (kind : ListKind)
  /-- A cell written into a builder of another type. -/
  | cellType (cell builder : DataType)
  /-- A value appended to a builder of another type. -/
  | valueType (value : Value) (builder : DataType)
  /-- A block copied into a list that cannot take it. -/
  | listType (block : DataType) (list : ListKind)
  | rowOutOfRange
  | positionOutOfRange (position count : Nat)
  /-- Output arrays too short for the number of positions looked up. -/
  | outputTooShort (positions : Nat)
  /-- A change of an index whose cache is open. -/
  | cacheIsOpen (call : GuardedCall)
  | alreadyOpen
  | reopened
  | populatedWhile (stage : CacheStage)
  | readWhile (stage : CacheStage)
  /-- A chunk id past the chunks a cache was opened for. -/
  | notCached (chunkId : Nat)
  | populatedTwice (chunkId : Nat)
  /-- A chunk that ends past the positions a cache was opened for. -/
  | endsPastCache (chunkId last positions : Nat)
  /-- A cached read at a position whose chunk was never copied. -/
  | notPopulated (position : Nat)
  /-- A cached read of an index without a list source. -/
  | noSource
  /-- A range of bits that ends past the end of a bitmap. -/
  | rangeOutOfBounds (stop length : Nat)
  /-- An array of more bytes than an array can have. -/
  | capacityOverflow
  deriving DecidableEq, Repr

def Misuse.message : Misuse → String
  | bitOutOfBounds index length => s!"bit {index} out of bounds ({length})"
  | chunkIdOutOfRange chunkId => s!"chunk id {chunkId} out of range"
  | offsetOutOfRange offset => s!"offset {offset} out of range"
  | unaddressable chunkId offset => (Refusal.addressOverflow chunkId offset).message
  | notAnAddress raw => s!"raw address {raw.toInt} is not a valid synthetic address"
  | nullMaskLength mask values => unequal "null mask length must match values" mask values
  | rowLength row columns => unequal "row length must match schema" row columns
  | blockRead getter type => s!"{getter.name} is not supported on {type.name} blocks"
  | listRead getter kind => s!"{getter.name} is not supported on {kind.name} lists"
  | cellType cell builder => s!"cannot write a {cell.name} cell into a {builder.name} builder"
  | valueType value builder => s!"cannot append {value.toText} to a {builder.name} builder"
  | listType block list => s!"cannot copy a {block.name} block into a {list.name} list"
  | rowOutOfRange => "assertion failed: pos < self.position_count"
  | positionOutOfRange position count => s!"position {position} out of range ({count} positions)"
  | outputTooShort positions => s!"output slices must hold {positions} entries"
  | cacheIsOpen call => s!"{call.name} called after the typed cache was opened"
  | alreadyOpen => "typed column cache is already open"
  | reopened => "typed column cache reopened after close"
  | populatedWhile stage => s!"typed column cache populated while {stage.name}"
  | readWhile stage => s!"typed column cache read while {stage.name}"
  | notCached chunkId => s!"chunk {chunkId} is not part of the cached index"
  | populatedTwice chunkId => s!"chunk {chunkId} populated twice"
  | endsPastCache chunkId last positions =>
    s!"chunk {chunkId} ends at position {last}, past the {positions} cached positions"
  | notPopulated position =>
    s!"typed column cache read at position {position} before its chunk was populated"
  | noSource => "typed cache read without a typed list handle"
  | rangeOutOfBounds stop length => s!"range end {stop} out of bounds ({length})"
  | capacityOverflow => "capacity overflow"
where
  /-- The wording of two lengths that should agree. -/
  unequal (rule : String) (left right : Nat) : String :=
    s!"assertion `left == right` failed: {rule}\n  left: {left}\n right: {right}"

/-! ### Failures -/

/-- Why an operation did not do what it was asked. -/
inductive Failure
  | refused (refusal : Refusal)
  /-- The call breaks a rule of the interface. -/
  | misused (misuse : Misuse)
  /-- An access outside a sequence. -/
  | outOfBounds
  /-- A count outside the range of sizes. -/
  | overflow
  deriving DecidableEq, Repr

end Columnar
