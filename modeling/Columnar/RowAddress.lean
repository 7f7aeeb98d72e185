import Columnar.Result

/-!
# Row addresses

An address packs a chunk id and an offset in the chunk into one 64-bit integer:
below a clear sign bit stand the chunk id and then the offset.

```text
| 0 (sign) | chunk id: 31 bits | offset: 32 bits |
```

An address is therefore never negative, which leaves `-1` free as the mark of
an empty slot, and the order of addresses is the lexicographic order of the
pairs.

## Main definitions

* `RowAddress.encode`, `RowAddress.decodeChunkId`, `RowAddress.decodeOffset` —
  the layout.
* `RowAddress` — an address.
* `RowAddress.ofPair?`, `RowAddress.ofRaw` — how addresses are made.
-/

namespace Columnar

/-- The address of a row: a chunk id and an offset, packed. -/
structure RowAddress where
  raw : Int64
  deriving DecidableEq, Inhabited, Repr

namespace RowAddress

/-- The mark of an empty slot, which is no address. -/
def nullAddress : Int64 := -1

/-- The bits of the offset field. -/
def offsetMask : Int64 := 0xffffffff

/-- The bits of the chunk id field, moved to the bottom. -/
def chunkIdMask : Int64 := 0x7fffffff

/-! ### The layout -/

/-- Packs a pair whose fields fit. -/
def encode (chunkId offset : Nat) : Result Int64 := do
  Result.require (chunkId < Limits.maxChunks) (.chunkIdOutOfRange chunkId)
  Result.require (offset < Limits.maxChunkRows) (.offsetOutOfRange offset)
  return (Int64.ofNat chunkId <<< 32) ||| (Int64.ofNat offset &&& offsetMask)

/-- The chunk id field of any 64-bit integer; the sign bit is dropped. -/
def decodeChunkId (raw : Int64) : Nat := ((raw >>> 32) &&& chunkIdMask).toInt.toNat

/-- The offset field of any 64-bit integer. -/
def decodeOffset (raw : Int64) : Nat := (raw &&& offsetMask).toInt.toNat

/-! ### Making addresses -/

/-- Packs a pair, or refuses one that does not fit. -/
def ofPair? (chunkId offset : Nat) : Result RowAddress :=
  if Limits.maxChunks ≤ chunkId ∨ Limits.maxChunkRows ≤ offset then
    Result.refuse (.addressOverflow chunkId offset)
  else
    RowAddress.mk <$> encode chunkId offset

/-- Packs a pair that the caller knows to fit. -/
def ofPair (chunkId offset : Nat) : Result RowAddress :=
  match ofPair? chunkId offset with
  | .error (.refused (.addressOverflow c o)) => Result.misuse (.unaddressable c o)
  | result => result

/-- Takes back an address that was kept as a plain integer. -/
def ofRaw (raw : Int64) : Result RowAddress := do
  Result.require (0 ≤ raw) (.notAnAddress raw)
  return ⟨raw⟩

def chunkId (a : RowAddress) : Nat := decodeChunkId a.raw

/-- The offset of an address within its chunk. -/
def offset (a : RowAddress) : Nat := decodeOffset a.raw

/-! ### Order and text -/

/-- Addresses are ordered as the integers they are. -/
instance : LE RowAddress := ⟨fun a b => a.raw ≤ b.raw⟩

instance : LT RowAddress := ⟨fun a b => a.raw < b.raw⟩

instance (a b : RowAddress) : Decidable (a ≤ b) := inferInstanceAs (Decidable (a.raw ≤ b.raw))

instance (a b : RowAddress) : Decidable (a < b) := inferInstanceAs (Decidable (a.raw < b.raw))

/-- Sorts addresses in ascending order. -/
def sort (addresses : List RowAddress) : List RowAddress :=
  addresses.mergeSort fun a b => decide (a ≤ b)

/-- The text of an address shows its two fields. -/
def toText (a : RowAddress) : String :=
  let fields := s!"chunk_id: {a.chunkId}, offset: {a.offset}"
  "SyntheticAddress \x7b " ++ fields ++ " \x7d"

end RowAddress

end Columnar
