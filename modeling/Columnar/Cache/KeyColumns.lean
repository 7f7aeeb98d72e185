import Columnar.Cache.Source

/-!
# Key columns

The usual list source copies some columns of fixed-width numbers as they are,
one list for each, in the order given.  A column may be given twice.

## Main definitions

* `KeyColumns` — the columns and the kinds of their lists.
* `KeyColumns.ofSchema` — the choice of columns, checked against a schema.
* `KeyColumns.source` — the list source.
-/

namespace Columnar

/-- A choice of columns to be copied into flat lists. -/
structure KeyColumns where
  /-- Each column with the kind of its list. -/
  columns : List (Nat × ListKind)
  deriving DecidableEq, Repr

namespace KeyColumns

/-- One column of a schema with the kind of its list.  A column that the schema
lacks is refused, and so is one whose type no list takes. -/
def keyColumn (schema : List DataType) (column : Nat) : Result (Nat × ListKind) :=
  match schema[column]? with
  | none => Result.refuse (.invalidOptions (.keyColumn column schema.length))
  | some type =>
    match ListKind.ofType? type with
    | none => Result.refuse (.unsupportedTypedColumn column type)
    | some kind => .ok (column, kind)

/-- The given columns of a schema; the first one that is refused decides. -/
def ofSchema (schema : List DataType) (keys : List Nat) : Result KeyColumns :=
  KeyColumns.mk <$> keys.mapM (keyColumn schema)

def keys (k : KeyColumns) : List Nat := k.columns.map Prod.fst

/-- The bytes of the lists for a number of positions. -/
def estimatedSize (k : KeyColumns) (positions : Nat) : Result Nat := do
  Size.sum (← k.columns.mapM fun (_, kind) => Size.mul kind.elementSize positions)

/-- One list of zeros for each column, made in order.  The first one that would
be too long decides. -/
def lists (k : KeyColumns) (positions : Nat) : Result (List FlatList) :=
  k.columns.mapM fun (_, kind) => FlatList.ofLength kind positions

/-- Copies columns into their lists in order.  The first column that is missing
or does not fit stops the copying, and the lists before it are already
overwritten by then. -/
def fillLists (chunk : Chunk) (base : Nat) :
    List (Nat × ListKind) → List FlatList → Outcome (List FlatList)
  | (column, _) :: columns, list :: lists =>
    let copied := do list.copyBlock (← chunk.block column) base
    match copied with
    | .error failure => .failed (list :: lists) failure
    | .ok list => (fillLists chunk base columns lists).map (list :: ·)
  | _, lists => .done lists

/-- The source that copies the chosen columns. -/
def source (k : KeyColumns) : ListSource where
  estimatedSize := k.estimatedSize
  lists := k.lists
  fill chunk base lists := fillLists chunk base k.columns lists

end KeyColumns

end Columnar
