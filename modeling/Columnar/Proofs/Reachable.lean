import Columnar.Cache.KeyColumns
import Columnar.Proofs.Steps

/-!
# Reachable indices

Every operation either adds chunks, which it can only do while the cache is not
open, or leaves the tables alone and at most changes the cache.  The invariant
of the tables is therefore kept by whatever happens to an index, failures
included.

An index can also be reached by a run: the induction on how it came about and
the induction on a list of operations are the same.

## Main definitions

* `Operation.Admissible` — an operation that merges nothing but reachable indices.

## Main results

* `RowIndex.apply_cases` — what an operation can do to the tables.
* `Reachable.wellFormed` — **every reachable index is well-formed.**
* `reachable_iff_exists_run` — reachable indices are those at the end of a run.
-/

namespace Columnar

namespace RowIndex

/-! ### Cache operations -/

theorem changeCache_eq_or (x : RowIndex) (change : ColumnCache → Outcome ColumnCache) :
    ∃ cache?, (x.changeCache change).state = { x with cache? := cache? } := by
  unfold changeCache
  split
  · exact ⟨x.cache?, rfl⟩
  · exact ⟨_, rfl⟩

theorem WellFormed.of_cache {x : RowIndex} (hx : x.WellFormed) (cache? : Option ColumnCache) :
    { x with cache? := cache? }.WellFormed :=
  ⟨hx.offsets_eq, hx.chunkCount_le, hx.rowCount_le, hx.maxChunkRows_le⟩

/-! ### Steps -/

/-- **What an operation can do to the tables**: add chunks, if the cache is not
open, or nothing. -/
theorem apply_cases {x : RowIndex} {operation : Operation} (hx : x.WellFormed)
    (hs : ∀ sources, operation = .merge sources → ∀ source ∈ sources, source.WellFormed) :
    (x.hasOpenCache = false ∧ ∃ added, x.Grown added (x.apply operation).state) ∨
      ∃ cache?, (x.apply operation).state = { x with cache? := cache? } := by
  have hunchanged : ∀ failure, x.apply operation = .failed x failure →
      ∃ cache?, (x.apply operation).state = { x with cache? := cache? } := by
    intro failure h
    rw [h]
    exact ⟨x.cache?, rfl⟩
  cases operation with
  | append shared =>
    rcases apply_append_cases hx shared with ⟨failure, h⟩ | ⟨y, h, hopen, hgrown⟩
    · exact Or.inr (hunchanged failure h)
    · rw [h]
      exact Or.inl ⟨hopen, _, hgrown⟩
  | merge sources =>
    rcases apply_merge_cases hx (hs sources rfl) with ⟨failure, h⟩ | ⟨-, hopen, hgrown⟩
    · exact Or.inr (hunchanged failure h)
    · exact Or.inl ⟨hopen, _, hgrown⟩
  | setSource source =>
    rcases apply_setSource_cases x source with ⟨failure, h⟩ | ⟨h, -⟩
    · exact Or.inr (hunchanged failure h)
    · rw [h]
      exact Or.inr ⟨_, rfl⟩
  | openCache => exact Or.inr (x.changeCache_eq_or _)
  | populate chunkId => exact Or.inr (x.changeCache_eq_or _)
  | closeCache => exact Or.inr (x.changeCache_eq_or _)

/-- One step keeps the invariant of the tables. -/
theorem WellFormed.apply {x : RowIndex} {operation : Operation} (hx : x.WellFormed)
    (hs : ∀ sources, operation = .merge sources → ∀ source ∈ sources, source.WellFormed) :
    (x.apply operation).state.WellFormed := by
  rcases apply_cases hx hs with ⟨-, added, hgrown⟩ | ⟨cache?, hcache⟩
  · exact hgrown.wellFormed
  · rw [hcache]
    exact hx.of_cache cache?

end RowIndex

/-- **Every reachable index is well-formed.** -/
theorem Reachable.wellFormed {x : RowIndex} (h : Reachable x) : x.WellFormed := by
  induction h with
  | start h => exact RowIndex.wellFormed_ofOptions h
  | step _ hmerge ih => exact ih.apply fun sources heq => absurd heq (hmerge sources)
  | @merge x sources _ _ ih ihs =>
    -- The invariant of the sources is the induction hypothesis for each of them.
    have hs : ∀ others, Operation.merge sources = .merge others →
        ∀ source ∈ others, source.WellFormed := by
      rintro _ ⟨⟩
      exact ihs
    have hmerged := ih.apply hs
    exact hmerged

/-! ### Runs -/

/-- The operation merges nothing but reachable indices. -/
def Operation.Admissible : Operation → Prop
  | .merge sources => ∀ source ∈ sources, Reachable source
  | _ => True

theorem Operation.Admissible.wellFormed {operation : Operation} (h : operation.Admissible) :
    ∀ sources, operation = .merge sources → ∀ source ∈ sources, source.WellFormed := by
  rintro sources rfl source hsource
  exact (h source hsource).wellFormed

theorem Reachable.apply {x : RowIndex} {operation : Operation} (hx : Reachable x)
    (h : operation.Admissible) : Reachable (x.apply operation).state := by
  cases operation with
  | merge sources => exact hx.merge h
  | append _ => exact hx.step fun _ heq => Operation.noConfusion heq
  | setSource _ => exact hx.step fun _ heq => Operation.noConfusion heq
  | openCache => exact hx.step fun _ heq => Operation.noConfusion heq
  | populate _ => exact hx.step fun _ heq => Operation.noConfusion heq
  | closeCache => exact hx.step fun _ heq => Operation.noConfusion heq

theorem Reachable.run {operations : List Operation} : ∀ {x : RowIndex}, Reachable x →
    (∀ operation ∈ operations, operation.Admissible) → Reachable (x.run operations).1 := by
  induction operations with
  | nil => intro x hx _; exact hx
  | cons operation rest ih =>
    intro x hx h
    exact ih (hx.apply (h operation List.mem_cons_self)) fun other hother =>
      h other (List.mem_cons_of_mem _ hother)

/-- The last operation of a run acts on what the ones before it left. -/
theorem RowIndex.run_concat (operations : List Operation) (operation : Operation) :
    ∀ x : RowIndex, (x.run (operations ++ [operation])).1 =
      ((x.run operations).1.apply operation).state := by
  induction operations with
  | nil => intro x; rfl
  | cons first rest ih => intro x; exact ih _

/-- **Reachable indices are those at the end of a run** that begins with a new
index. -/
theorem reachable_iff_exists_run {x : RowIndex} :
    Reachable x ↔ ∃ options start operations, RowIndex.ofOptions options = .ok start ∧
      (∀ operation ∈ operations, operation.Admissible) ∧ (start.run operations).1 = x := by
  constructor
  · intro h
    -- One operation more is one step more at the end of the run.
    have hstep : ∀ {y : RowIndex} (operation : Operation), operation.Admissible →
        (∃ options start operations, RowIndex.ofOptions options = .ok start ∧
          (∀ operation ∈ operations, operation.Admissible) ∧ (start.run operations).1 = y) →
        ∃ options start operations, RowIndex.ofOptions options = .ok start ∧
          (∀ operation ∈ operations, operation.Admissible) ∧
            (start.run operations).1 = (y.apply operation).state := by
      rintro y operation hop ⟨options, start, operations, hstart, hall, rfl⟩
      refine ⟨options, start, operations ++ [operation], hstart, ?_, RowIndex.run_concat ..⟩
      intro other hother
      rcases List.mem_append.1 hother with hother | hother
      · exact hall other hother
      · rw [List.mem_singleton.1 hother]
        exact hop
    induction h with
    | start h => exact ⟨_, _, [], h, by simp, rfl⟩
    | @step x operation _ hmerge ih =>
      refine hstep operation ?_ ih
      cases operation with
      | merge sources => exact absurd rfl (hmerge sources)
      | append _ => trivial
      | setSource _ => trivial
      | openCache => trivial
      | populate _ => trivial
      | closeCache => trivial
    | @merge x sources _ hs ih _ => exact hstep (.merge sources) hs ih
  · rintro ⟨options, start, operations, hstart, hall, rfl⟩
    exact (Reachable.start hstart).run hall

/-! ### Indices of given chunks -/

/-- A chunk with one column of 64-bit integers, none of them null. -/
def Chunk.ofLongs (values : List Int64) : Chunk :=
  ⟨[.long ⟨values.toArray, .none⟩], values.length⟩

/-- An index to which the given chunks were appended. -/
def RowIndex.ofChunks (chunks : List SharedChunk) : RowIndex :=
  (RowIndex.empty.run (chunks.map .append)).1

theorem reachable_empty : Reachable RowIndex.empty := @Reachable.start .usual _ rfl

theorem reachable_ofChunks (chunks : List SharedChunk) : Reachable (.ofChunks chunks) := by
  refine reachable_empty.run fun operation h => ?_
  obtain ⟨shared, -, rfl⟩ := List.mem_map.1 h
  trivial

/-- Appends chunks, opens a cache of key columns and copies the chunks with the
given ids. -/
def Operation.copying (chunks : List SharedChunk) (k : KeyColumns) (ids : List Nat) :
    List Operation :=
  chunks.map .append ++ [.setSource k.source, .openCache] ++ ids.map .populate

theorem Operation.admissible_of_mem_copying {chunks : List SharedChunk} {k : KeyColumns}
    {ids : List Nat} : ∀ operation ∈ copying chunks k ids, operation.Admissible := by
  intro operation h
  rcases List.mem_append.1 h with h | h
  · rcases List.mem_append.1 h with h | h
    · obtain ⟨shared, -, rfl⟩ := List.mem_map.1 h
      trivial
    · rw [List.mem_cons, List.mem_singleton] at h
      rcases h with rfl | rfl <;> trivial
  · obtain ⟨chunkId, -, rfl⟩ := List.mem_map.1 h
    trivial

/-- An index with an open cache of key columns, into which some chunks were
copied. -/
def RowIndex.ofCopied (chunks : List SharedChunk) (k : KeyColumns) (ids : List Nat) : RowIndex :=
  (RowIndex.empty.run (Operation.copying chunks k ids)).1

theorem reachable_ofCopied (chunks : List SharedChunk) (k : KeyColumns) (ids : List Nat) :
    Reachable (.ofCopied chunks k ids) :=
  reachable_empty.run Operation.admissible_of_mem_copying

end Columnar
