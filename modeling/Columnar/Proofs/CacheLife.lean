import Columnar.Proofs.Reachable
import Columnar.Proofs.RowSequence

/-!
# The life of an open cache

While a cache is open the tables of its index cannot change, and the only thing
that can happen to it, short of being closed, is that chunks are copied into it.
Whatever is to be shown of an open cache is therefore shown once for a cache
just opened, and once for each way in which copying a chunk can end: before
anything is touched, with the lists partly overwritten, or with the copy
recorded.

The record of a run lists the chunks copied since the cache was last opened.  It
is no part of the index, and is what the marks of the cache are compared to.

## Main definitions

* `RowIndex.copiedIds` — the record of a run.
* `RowIndex.Copied` — a run copied a chunk since it last opened the cache.
* `OpenInvariant` — what is kept by all that can happen to an open cache.

## Main results

* `OpenCache.clearance_eq_ok_iff` — when a chunk may be copied.
* `RowIndex.apply_cases_of_opened` — what can have happened if a cache is open.
* `RowIndex.mem_copiedIds_iff` — what the record says.
* `OpenInvariant.of_run`, `OpenInvariant.of_reachable` — **how a property of open
  caches is proved.**
-/

namespace Columnar

namespace OpenCache

variable {o : OpenCache} {source : ListSource} {chunkId base stop : Nat} {chunk : Chunk}

theorem clearance_eq_ok_iff :
    o.clearance chunkId chunk base = .ok stop ↔
      chunkId < o.populated.length ∧ o.populated.bit chunkId = false ∧
        base + chunk.positionCount < Size.limit ∧
          base + chunk.positionCount ≤ o.filled.length ∧ stop = base + chunk.positionCount := by
  unfold clearance
  simp only [Result.bind_eq_ok_iff, Result.require_eq_ok_iff, Size.add_eq_ok_iff,
    decide_eq_true_eq, Bool.not_eq_true']
  constructor
  · rintro ⟨_, hid, _, hbit, _, ⟨hlimit, rfl⟩, _, hle, hstop⟩
    exact ⟨hid, hbit, hlimit, hle, (Except.ok.inj hstop).symm⟩
  · rintro ⟨hid, hbit, hlimit, hle, rfl⟩
    exact ⟨(), hid, (), hbit, _, ⟨hlimit, rfl⟩, (), hle, rfl⟩

/-- A chunk that may not be copied changes nothing. -/
theorem populate_of_not_clear {failure : Failure}
    (h : o.clearance chunkId chunk base = .error failure) :
    o.populate source chunkId chunk base = .failed o failure := by
  rw [populate, h]

/-- A copy that fails halfway changes the lists and marks nothing. -/
theorem populate_of_fill_error {failure : Failure}
    (h : o.clearance chunkId chunk base = .ok stop)
    (hfill : (source.fill chunk base o.lists).status = .error failure) :
    o.populate source chunkId chunk base =
      ⟨{ o with lists := (source.fill chunk base o.lists).state }, .error failure,
        (source.fill chunk base o.lists).notices⟩ := by
  simp only [populate, h, Outcome.map, Outcome.andThen, hfill]

/-- A copy that succeeds changes the lists and is marked. -/
theorem populate_of_fill_ok (h : o.clearance chunkId chunk base = .ok stop)
    (hfill : (source.fill chunk base o.lists).status = .ok ()) :
    o.populate source chunkId chunk base =
      ⟨{ o with lists := (source.fill chunk base o.lists).state }.mark chunkId base stop, .ok (),
        (source.fill chunk base o.lists).notices⟩ := by
  simp only [populate, h, Outcome.map, Outcome.andThen, hfill, Outcome.done, List.append_nil]

end OpenCache

/-! ### Steps -/

namespace RowIndex

variable {x : RowIndex} {source : ListSource} {contents : OpenCache}

theorem hasOpenCache_of_opened (h : x.cache? = some ⟨source, .opened contents⟩) :
    x.hasOpenCache = true := by
  rw [hasOpenCache, h]
  rfl

/-- An index that could grow has no open cache afterwards. -/
theorem Grown.not_opened {y : RowIndex} {added : List SharedChunk} (h : x.Grown added y)
    (hopen : x.hasOpenCache = false) : y.cache? ≠ some ⟨source, .opened contents⟩ := by
  intro hcache
  rw [← h.hasOpenCache_eq, hasOpenCache_of_opened hcache] at hopen
  cases hopen

/-- **What can have happened if a cache is open after an operation**: the
operation failed and changed nothing, or it opened the cache, or it went on
copying a chunk into it. -/
theorem apply_cases_of_opened {operation : Operation} (hx : x.WellFormed)
    (hs : ∀ sources, operation = .merge sources → ∀ source ∈ sources, source.WellFormed)
    (h : (x.apply operation).state.cache? = some ⟨source, .opened contents⟩) :
    (∃ failure, x.apply operation = .failed x failure) ∨
    (operation = .openCache ∧ (x.apply operation).status = .ok () ∧
      (x.apply operation).state.chunks = x.chunks ∧
      ∃ lists, source.lists x.positionCount = .ok lists ∧
        contents = .fresh lists x.positionCount x.chunkCount) ∨
    ∃ chunkId before shared base, operation = .populate chunkId ∧
      (x.apply operation).state.chunks = x.chunks ∧
      x.cache? = some ⟨source, .opened before⟩ ∧ x.chunk chunkId = .ok shared ∧
      x.chunkOffset chunkId = .ok base ∧
      (x.apply operation).status = (before.populate source chunkId shared.chunk base).status ∧
      contents = (before.populate source chunkId shared.chunk base).state := by
  -- A cache that is open afterwards was opened by the operation or was open before, and
  -- then only a copy may succeed.
  cases operation with
  | append shared =>
    rcases apply_append_cases hx shared with hfailed | ⟨y, happly, hopen, hgrown⟩
    · exact Or.inl hfailed
    · rw [happly] at h
      exact absurd h (hgrown.not_opened hopen)
  | merge sources =>
    rcases apply_merge_cases hx (hs sources rfl) with hfailed | ⟨-, hopen, hgrown⟩
    · exact Or.inl hfailed
    · exact absurd h (hgrown.not_opened hopen)
  | setSource other =>
    rcases apply_setSource_cases x other with hfailed | ⟨happly, -⟩
    · exact Or.inl hfailed
    · rw [happly] at h
      cases h
  | openCache =>
    rcases apply_openCache_cases x with
      ⟨hnone, happly⟩ | hfailed | ⟨own, lists, -, hlists, happly⟩
    · rw [happly, Outcome.state_done, hnone] at h
      cases h
    · exact Or.inl hfailed
    · rw [happly] at h ⊢
      cases h
      exact Or.inr (Or.inl ⟨rfl, rfl, rfl, lists, hlists, rfl⟩)
  | populate chunkId =>
    rcases apply_populate_cases x chunkId with ⟨hnone, happly⟩ | hfailed |
      ⟨own, before, shared, base, hcache, hchunk, hoffset, happly⟩
    · rw [happly, Outcome.state_done, hnone] at h
      cases h
    · exact Or.inl hfailed
    · rw [happly] at h ⊢
      cases h
      exact Or.inr (Or.inr
        ⟨chunkId, before, shared, base, rfl, rfl, hcache, hchunk, hoffset, rfl, rfl⟩)
  | closeCache =>
    rcases apply_closeCache_cases x with ⟨hnone, happly⟩ | ⟨own, phase, notices, -, happly⟩
    · rw [happly, Outcome.state_done, hnone] at h
      cases h
    · rw [happly] at h
      cases h

end RowIndex

/-! ### Runs -/

/-- What an operation does to the record of copied chunks.  Opening the cache
begins a new record, and only copies that succeeded are entered. -/
def Operation.record (operation : Operation) (status : Result Unit) (copied : List Nat) :
    List Nat :=
  match operation, status with
  | .openCache, .ok () => []
  | .populate chunkId, .ok () => chunkId :: copied
  | _, _ => copied

/-- The record after some operations with their outcomes, from a given record
on. -/
def recordFrom (copied : List Nat) (steps : List (Operation × Outcome RowIndex)) : List Nat :=
  steps.foldl (fun copied step => step.1.record step.2.status copied) copied

/-- The ids of the chunks that a run copied since it last opened the cache. -/
def RowIndex.copiedIds (x : RowIndex) (operations : List Operation) : List Nat :=
  recordFrom [] (operations.zip (x.run operations).2)

theorem Operation.record_of_error (operation : Operation) (failure : Failure)
    (copied : List Nat) : operation.record (.error failure) copied = copied := by
  cases operation <;> rfl

/-- Some copy of the chunk succeeded in a run, and the cache was not opened after
it. -/
def RowIndex.Copied (x : RowIndex) (operations : List Operation) (chunkId : Nat) : Prop :=
  ∃ before outcome after,
    operations.zip (x.run operations).2 = before ++ (.populate chunkId, outcome) :: after ∧
      outcome.status = .ok () ∧
        ∀ step ∈ after, ¬ (step.1 = .openCache ∧ step.2.status = .ok ())

/-- A chunk is in the record after an operation if it was there and the cache was
not opened, or if it was just copied. -/
theorem Operation.mem_record_iff {operation : Operation} {status : Result Unit}
    {copied : List Nat} {chunkId : Nat} :
    chunkId ∈ operation.record status copied ↔
      (chunkId ∈ copied ∧ ¬ (operation = .openCache ∧ status = .ok ())) ∨
        operation = .populate chunkId ∧ status = .ok () := by
  cases status with
  | error failure => simp [record_of_error]
  | ok _ =>
    cases operation with
    | openCache => simp [record]
    | populate other =>
      simp only [record, List.mem_cons, reduceCtorEq, not_false_eq_true, and_true,
        Operation.populate.injEq]
      rw [or_comm, eq_comm]
    | append _ => simp [record]
    | merge _ => simp [record]
    | setSource _ => simp [record]
    | closeCache => simp [record]

theorem mem_recordFrom_iff {chunkId : Nat} :
    ∀ {steps : List (Operation × Outcome RowIndex)} {copied : List Nat},
      chunkId ∈ recordFrom copied steps ↔
        (chunkId ∈ copied ∧ ∀ step ∈ steps, ¬ (step.1 = .openCache ∧ step.2.status = .ok ())) ∨
        ∃ before outcome after, steps = before ++ (.populate chunkId, outcome) :: after ∧
          outcome.status = .ok () ∧
            ∀ step ∈ after, ¬ (step.1 = .openCache ∧ step.2.status = .ok ()) := by
  intro steps
  induction steps with
  | nil => intro copied; simp [recordFrom]
  | cons step rest ih =>
    intro copied
    have hnext : recordFrom copied (step :: rest) =
        recordFrom (step.1.record step.2.status copied) rest := rfl
    rw [hnext, ih, Operation.mem_record_iff]
    constructor
    · rintro (⟨⟨hmem, hstep⟩ | ⟨hcopy, hstatus⟩, hrest⟩ | ⟨before, outcome, after, rfl, hlast⟩)
      · refine Or.inl ⟨hmem, ?_⟩
        intro other hother
        rcases List.mem_cons.1 hother with rfl | hother
        · exact hstep
        · exact hrest other hother
      · exact Or.inr ⟨[], step.2, rest, by rw [← hcopy]; rfl, hstatus, hrest⟩
      · exact Or.inr ⟨step :: before, outcome, after, rfl, hlast⟩
    · rintro (⟨hmem, hall⟩ | ⟨before, outcome, after, heq, hstatus, hafter⟩)
      · exact Or.inl ⟨Or.inl ⟨hmem, hall step List.mem_cons_self⟩,
          fun other hother => hall other (List.mem_cons_of_mem _ hother)⟩
      · -- The copy is this step or one of the later ones.
        cases before with
        | nil =>
          cases heq
          exact Or.inl ⟨Or.inr ⟨rfl, hstatus⟩, hafter⟩
        | cons first before =>
          cases heq
          exact Or.inr ⟨before, outcome, after, rfl, hstatus, hafter⟩

/-- **The record lists the chunks that were copied since the cache was opened.** -/
theorem RowIndex.mem_copiedIds_iff {x : RowIndex} {operations : List Operation} {chunkId : Nat} :
    chunkId ∈ x.copiedIds operations ↔ x.Copied operations chunkId := by
  rw [copiedIds, mem_recordFrom_iff]
  simp only [List.not_mem_nil, false_and, false_or]
  rfl

/-- A property of the chunks of an index, the source and the contents of its open
cache, and the record of copied chunks, that holds as long as the cache is
open. -/
structure OpenInvariant (P : List SharedChunk → ListSource → OpenCache → List Nat → Prop) :
    Prop where
  /-- It holds when the cache is opened. -/
  opened : ∀ {chunks source lists}, source.lists (startOf chunks chunks.length) = .ok lists →
    P chunks source (.fresh lists (startOf chunks chunks.length) chunks.length) []
  /-- It is kept by a copy that fails halfway. -/
  failed : ∀ {chunks source contents copied chunkId shared stop failure},
    P chunks source contents copied → chunks[chunkId]? = some shared →
    contents.clearance chunkId shared.chunk (startOf chunks chunkId) = .ok stop →
    (source.fill shared.chunk (startOf chunks chunkId) contents.lists).status = .error failure →
      P chunks source { contents with
        lists := (source.fill shared.chunk (startOf chunks chunkId) contents.lists).state } copied
  /-- It is kept by a copy that succeeds. -/
  copied : ∀ {chunks source contents copied chunkId shared stop},
    P chunks source contents copied → chunks[chunkId]? = some shared →
    contents.clearance chunkId shared.chunk (startOf chunks chunkId) = .ok stop →
    (source.fill shared.chunk (startOf chunks chunkId) contents.lists).status = .ok () →
      P chunks source (OpenCache.mark { contents with
        lists := (source.fill shared.chunk (startOf chunks chunkId) contents.lists).state }
          chunkId (startOf chunks chunkId) stop) (chunkId :: copied)

namespace OpenInvariant

variable {P : List SharedChunk → ListSource → OpenCache → List Nat → Prop}

/-- The property holds of an index if its cache is open. -/
def On (P : List SharedChunk → ListSource → OpenCache → List Nat → Prop) (x : RowIndex)
    (copied : List Nat) : Prop :=
  ∀ source contents, x.cache? = some ⟨source, .opened contents⟩ →
    P x.chunks.items.toList source contents copied

theorem apply (hP : OpenInvariant P) {x : RowIndex} {operation : Operation} {copied : List Nat}
    (hx : x.WellFormed) (hop : operation.Admissible) (h : On P x copied) :
    On P (x.apply operation).state (operation.record (x.apply operation).status copied) := by
  intro source contents hcache
  rcases RowIndex.apply_cases_of_opened hx hop.wellFormed hcache with
    ⟨failure, hfailed⟩ | ⟨rfl, hstatus, hchunks, lists, hlists, rfl⟩ |
      ⟨chunkId, before, shared, base, rfl, hchunks, hbefore, hchunk, hoffset, hstatus, rfl⟩
  · -- The operation failed and changed nothing.
    rw [hfailed] at hcache ⊢
    rw [Outcome.status_failed, Operation.record_of_error]
    exact h source contents hcache
  · -- The cache was opened for all positions and chunks, with an empty record.
    rw [hchunks, hstatus]
    have hall : startOf x.chunks.items.toList x.chunks.items.toList.length = x.positionCount :=
      hx.startOf_length
    have hopened := hP.opened (hall ▸ hlists)
    rwa [hall, Array.length_toList] at hopened
  · -- A chunk was copied, or part of it, to where it begins.
    have hlookup : x.chunks.items.toList[chunkId]? = some shared := by
      rw [Array.getElem?_toList]
      exact Result.element_eq_ok_iff.1 hchunk
    have hid : chunkId ≤ x.chunkCount := by
      obtain ⟨hlt, -⟩ := Array.getElem?_eq_some_iff.1 (Result.element_eq_ok_iff.1 hchunk)
      exact Nat.le_of_lt hlt
    obtain rfl : startOf x.chunks.items.toList chunkId = base := by
      rw [hx.chunkOffset_eq hid] at hoffset
      exact Except.ok.inj hoffset
    have hinv := h source before hbefore
    rw [hchunks, hstatus]
    cases hclear : before.clearance chunkId shared.chunk
        (startOf x.chunks.items.toList chunkId) with
    | error failure =>
      rw [OpenCache.populate_of_not_clear hclear]
      exact hinv
    | ok stop =>
      cases hfill : (source.fill shared.chunk (startOf x.chunks.items.toList chunkId)
          before.lists).status with
      | error failure =>
        rw [OpenCache.populate_of_fill_error hclear hfill]
        exact hP.failed hinv hlookup hclear hfill
      | ok _ =>
        rw [OpenCache.populate_of_fill_ok hclear hfill]
        exact hP.copied hinv hlookup hclear hfill

theorem run (hP : OpenInvariant P) : ∀ {operations : List Operation} {x : RowIndex}
    {copied : List Nat}, x.WellFormed → (∀ operation ∈ operations, operation.Admissible) →
      On P x copied → On P (x.run operations).1
        (recordFrom copied (operations.zip (x.run operations).2)) := by
  intro operations
  induction operations with
  | nil => intro x copied _ _ h; exact h
  | cons operation rest ih =>
    intro x copied hx hops h
    have hop : operation.Admissible := hops operation List.mem_cons_self
    exact ih (hx.apply hop.wellFormed)
      (fun other hother => hops other (List.mem_cons_of_mem _ hother))
      (hP.apply hx hop h)

end OpenInvariant

/-- A cache is not open in an index that was just made. -/
theorem cache?_ofOptions {options : IndexOptions} {x : RowIndex}
    (h : RowIndex.ofOptions options = .ok x) : x.cache? = none := by
  rw [RowIndex.eq_of_ofOptions h]
  rfl

/-- **How a property of open caches is proved**, with the record of the run that
began with a new index. -/
theorem OpenInvariant.of_run {P : List SharedChunk → ListSource → OpenCache → List Nat → Prop}
    (hP : OpenInvariant P) {options : IndexOptions} {start : RowIndex}
    {operations : List Operation} (hstart : RowIndex.ofOptions options = .ok start)
    (hops : ∀ operation ∈ operations, operation.Admissible) {source : ListSource}
    {contents : OpenCache}
    (h : (start.run operations).1.cache? = some ⟨source, .opened contents⟩) :
    P (start.run operations).1.chunks.items.toList source contents
      (start.copiedIds operations) := by
  refine hP.run (RowIndex.wellFormed_ofOptions hstart) hops ?_ source contents h
  intro _ _ hcache
  rw [cache?_ofOptions hstart] at hcache
  cases hcache

/-- **How a property of open caches is proved** of any reachable index, with some
record. -/
theorem OpenInvariant.of_reachable
    {P : List SharedChunk → ListSource → OpenCache → List Nat → Prop} (hP : OpenInvariant P)
    {x : RowIndex} (hx : Reachable x) {source : ListSource} {contents : OpenCache}
    (h : x.cache? = some ⟨source, .opened contents⟩) :
    ∃ copied, P x.chunks.items.toList source contents copied := by
  obtain ⟨options, start, operations, hstart, hops, rfl⟩ := reachable_iff_exists_run.1 hx
  exact ⟨_, hP.of_run hstart hops h⟩

end Columnar
