import Columnar.Proofs.Bounds
import Columnar.Proofs.BufferRoom
import Columnar.Proofs.Extension

/-!
# The room of the tables

The two tables of an index grow at their ends only, by one element for a chunk that is
appended and by all elements of a source at once in a merge.  So the bytes of the
tables can be told from the number of chunks up to a factor of two, whatever was done
to the index.

## Main definitions

* `RowIndex.TablesGrow` — both tables of an index grew into those of another.

## Main results

* `RowIndex.TablesGrow.apply`, `RowIndex.TablesGrow.run` — an operation lets the tables
  grow, and so does a run.
* `RowIndex.bookkeeping_follows_chunks` — **the bytes of the tables after any run.**
-/

namespace Columnar

namespace RowIndex

variable {x y z : RowIndex}

/-! ### Tables that grow -/

/-- Both tables of an index grew into those of another. -/
structure TablesGrow (x y : RowIndex) : Prop where
  chunks : x.chunks.Grows y.chunks
  offsets : x.offsets.Grows y.offsets

namespace TablesGrow

theorem refl (x : RowIndex) : x.TablesGrow x := ⟨.refl, .refl⟩

theorem trans (h : x.TablesGrow y) (h' : y.TablesGrow z) : x.TablesGrow z :=
  ⟨h.chunks.trans h'.chunks, h.offsets.trans h'.offsets⟩

theorem of_cache (x : RowIndex) (cache? : Option ColumnCache) :
    x.TablesGrow { x with cache? := cache? } := ⟨.refl, .refl⟩

/-- What comes after a change only adds to it, whether the change succeeded or not. -/
theorem andThen {o : Outcome RowIndex} {next : RowIndex → Outcome RowIndex}
    (h : x.TablesGrow o.state) (hnext : ∀ y : RowIndex, y.TablesGrow (next y).state) :
    x.TablesGrow (o.andThen next).state := by
  obtain ⟨state, status, notices⟩ := o
  cases status with
  | error failure => exact h
  | ok _ => exact h.trans (hnext state)

theorem append {shared : SharedChunk} (h : x.append shared = .ok y) : x.TablesGrow y := by
  unfold RowIndex.append at h
  simp only [Result.bind_eq_ok_iff] at h
  obtain ⟨_, -, _, -, stop, -, hy⟩ := h
  cases hy
  exact ⟨x.chunks.grows_push shared, x.offsets.grows_push stop⟩

theorem takeOver (x source : RowIndex) : x.TablesGrow (x.takeOver source).state := by
  unfold RowIndex.takeOver
  split
  · exact refl x
  · dsimp only
    split
    · exact ⟨x.chunks.grows_append _, .refl⟩
    · exact ⟨x.chunks.grows_append _, x.offsets.grows_append _⟩

theorem takeOverAll : ∀ (sources : List RowIndex) (x : RowIndex),
    x.TablesGrow (x.takeOverAll sources).state := by
  intro sources
  induction sources with
  | nil => intro x; exact refl x
  | cons source rest ih => intro x; exact (takeOver x source).andThen ih

theorem merge (x : RowIndex) (sources : List RowIndex) :
    x.TablesGrow (x.merge sources).state := by
  unfold RowIndex.merge
  dsimp only
  split
  · exact refl x
  · exact (takeOverAll sources x).andThen fun y => refl y

/-- **An operation lets the tables grow**, if it changes them at all. -/
theorem apply (x : RowIndex) (operation : Operation) :
    x.TablesGrow (x.apply operation).state := by
  -- What is done to the cache leaves the tables alone.
  have hcache : ∀ change, x.TablesGrow (x.changeCache change).state := by
    intro change
    obtain ⟨cache?, hstate⟩ := x.changeCache_eq_or change
    rw [hstate]
    exact of_cache x cache?
  cases operation with
  | append shared =>
    show x.TablesGrow (Outcome.ofResult x (x.append shared)).state
    cases happend : x.append shared with
    | error failure => exact refl x
    | ok y => exact append happend
  | merge sources => exact merge x sources
  | setSource source =>
    rcases apply_setSource_cases x source with ⟨failure, happly⟩ | ⟨happly, -⟩
    · rw [happly]
      exact refl x
    · rw [happly]
      exact of_cache x _
  | openCache => exact hcache _
  | populate chunkId => exact hcache _
  | closeCache => exact hcache _

theorem run : ∀ (operations : List Operation) (x : RowIndex),
    x.TablesGrow (x.run operations).1 := by
  intro operations
  induction operations with
  | nil => intro x; exact refl x
  | cons operation rest ih => intro x; exact (apply x operation).trans (ih _)

end TablesGrow

/-! ### The bytes of the tables -/

theorem TablesGrow.bookkeepingBytes_le (h : x.TablesGrow y) :
    x.bookkeepingBytes ≤ y.bookkeepingBytes := by
  have hchunks := h.chunks.capacity_le
  have hoffsets := h.offsets.capacity_le
  unfold bookkeepingBytes
  omega

/-- A new index has the room it was asked for, and one place more for the offsets. -/
theorem roomFrom_ofOptions {options : IndexOptions} (h : ofOptions options = .ok x) :
    x.chunks.RoomFrom options.chunkCapacity ∧
      x.offsets.RoomFrom (options.chunkCapacity + 1) := by
  obtain rfl := eq_of_ofOptions h
  exact ⟨Buffer.roomFrom_withCapacity _,
    (Buffer.roomFrom_withCapacity _).grows (Buffer.grows_push _ 0)⟩

/-- **The bytes of the tables follow from the number of chunks**, up to a factor of two.
After any run from a new index, whatever was appended or merged and whatever failed, the
tables take the bytes of the room that was asked for as long as the chunks fit there, and
otherwise at least what the entries take and at most twice that, or four places.  The
bytes never become fewer along a run, and an operation that fails or is one on the cache
leaves them as they are. -/
theorem bookkeeping_follows_chunks {options : IndexOptions} {start : RowIndex}
    {operations : List Operation} (hstart : ofOptions options = .ok start)
    (hops : ∀ operation ∈ operations, operation.Admissible)
    (hrun : (start.run operations).1 = x) :
    (x.chunkCount ≤ options.chunkCapacity →
      x.bookkeepingBytes = 8 * (2 * options.chunkCapacity + 1)) ∧
    8 * (2 * x.chunkCount + 1) ≤ x.bookkeepingBytes ∧
    x.bookkeepingBytes ≤ 8 * (max (max options.chunkCapacity (2 * x.chunkCount)) 4 +
      max (max (options.chunkCapacity + 1) (2 * x.chunkCount + 2)) 4) ∧
    (∀ later : List Operation, x.bookkeepingBytes ≤ (x.run later).1.bookkeepingBytes) ∧
    ∀ operation : Operation, operation.Admissible →
      (∃ failure, (x.apply operation).status = .error failure) ∨ operation.isOnCache = true →
        (x.apply operation).state.bookkeepingBytes = x.bookkeepingBytes := by
  subst hrun
  have hwell : (start.run operations).1.WellFormed := ((Reachable.start hstart).run hops).wellFormed
  have hgrows : start.TablesGrow (start.run operations).1 := .run operations start
  -- From here on only the tables at the end of the run matter.
  generalize (start.run operations).1 = x at hwell hgrows
  obtain ⟨hchunks, hoffsets⟩ := roomFrom_ofOptions hstart
  have hchunks := hchunks.grows hgrows.chunks
  have hoffsets := hoffsets.grows hgrows.offsets
  have hcount : x.chunks.size = x.chunkCount := rfl
  have hentries : x.offsets.size = x.chunkCount + 1 := hwell.size_offsets
  refine ⟨fun hfits => ?_, ?_, ?_, fun later => (TablesGrow.run later x).bookkeepingBytes_le, ?_⟩
  · rw [bookkeepingBytes, hchunks.capacity_eq hfits, hoffsets.capacity_eq (by omega)]
    omega
  · have hmore : x.chunks.size ≤ x.chunks.capacity := x.chunks.size_le_capacity
    have hmore' : x.offsets.size ≤ x.offsets.capacity := x.offsets.size_le_capacity
    unfold bookkeepingBytes
    omega
  · have hless := hchunks.capacity_le
    have hless' := hoffsets.capacity_le
    unfold bookkeepingBytes
    omega
  · intro operation hop hsame
    obtain ⟨htable, htable'⟩ := apply_tables hwell hop hsame
    rw [bookkeepingBytes, htable, htable', bookkeepingBytes]

/-- An index with room for one chunk takes one, then three at once, which makes room for
just the four, and refuses one that is too large. -/
theorem bookkeeping_follows_chunks_merged :
    ∃ start x, ofOptions ⟨1, 2⟩ = .ok start ∧
      (start.run [.append ⟨0, .ofLongs [7]⟩,
        .merge [ofChunks [⟨1, .ofLongs [1]⟩, ⟨2, .ofLongs []⟩, ⟨3, .ofLongs [2, 3]⟩]]]).1 = x ∧
      x.chunkCount = 4 ∧ start.bookkeepingBytes = 24 ∧ x.bookkeepingBytes = 72 ∧
      8 * (2 * x.chunkCount + 1) ≤ x.bookkeepingBytes ∧ x.bookkeepingBytes ≤ 144 ∧
      (x.apply (.append ⟨4, .ofLongs [1, 2, 3]⟩)).state.bookkeepingBytes = x.bookkeepingBytes := by
  have hops : ∀ operation ∈ ([.append ⟨0, .ofLongs [7]⟩, .merge [ofChunks [⟨1, .ofLongs [1]⟩,
      ⟨2, .ofLongs []⟩, ⟨3, .ofLongs [2, 3]⟩]]] : List Operation), operation.Admissible := by
    intro operation h
    simp only [List.mem_cons, List.not_mem_nil, or_false] at h
    rcases h with rfl | rfl
    · trivial
    · exact List.forall_mem_singleton.2 (reachable_ofChunks _)
  have hstart : ofOptions ⟨1, 2⟩ = .ok (ofValidOptions ⟨1, 2⟩) := rfl
  obtain ⟨-, hmin, hmax, -, hsame⟩ := bookkeeping_follows_chunks hstart hops rfl
  exact ⟨_, _, hstart, rfl, rfl, rfl, rfl, hmin, hmax, hsame _ trivial (Or.inl ⟨_, rfl⟩)⟩

end RowIndex

end Columnar
