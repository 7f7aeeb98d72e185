import Columnar.Result

/-!
# Options of an index

## Main definitions

* `IndexOptions` — the room set aside for chunks, and the largest chunk.
* `IndexOptions.usual` — the options of an index that asks for none.
* `IndexOptions.validate` — the condition on the largest chunk.
-/

namespace Columnar

/-- How an index is set up. -/
structure IndexOptions where
  /-- The number of chunks to set room aside for. -/
  chunkCapacity : Nat
  /-- The number of rows of the largest chunk that is accepted. -/
  maxChunkRows : Nat
  deriving DecidableEq, Repr

namespace IndexOptions

/-- Room for sixteen chunks, of any size that can be addressed. -/
def usual : IndexOptions := ⟨16, Limits.maxChunkRows⟩

instance : Inhabited IndexOptions := ⟨usual⟩

/-- Checks that the largest chunk has a row and can be addressed. -/
def validate (options : IndexOptions) : Result Unit :=
  if options.maxChunkRows = 0 ∨ Limits.maxChunkRows < options.maxChunkRows then
    Result.refuse (.invalidOptions (.rowLimit options.maxChunkRows))
  else .ok ()

theorem validate_eq_ok_iff {options : IndexOptions} {u : Unit} :
    options.validate = .ok u ↔
      0 < options.maxChunkRows ∧ options.maxChunkRows ≤ Limits.maxChunkRows := by
  unfold validate
  split <;> simp [Result.refuse] <;> omega

end IndexOptions

end Columnar
