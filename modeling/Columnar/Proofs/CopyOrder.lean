import Columnar.Proofs.FailedCopies
import Columnar.Proofs.KeySchema

/-!
# Copies in any order

A cache of key columns can be opened without an index, for any number of
positions and chunks for which its lists fit arrays, and be given chunks together
with their ids and the positions of their first rows.  If no two of the calls have
the id or a position in common, they do not get into each other's way: each call
succeeds or fails as it would on the newly opened cache, and what can be asked of
the cache in the end is settled by the calls that were made, not by their order.

A copy that fails may have overwritten part of its own range.  Nothing can be read
there, since no other call covers these positions, and no other call finds them
changed.  The lists therefore hold zeros wherever no call has been made for, which
is what is left past the end of a column that is shorter than its chunk.

## Main definitions

* `CopyCall`, `CopyCall.Apart` — calls, and when they do not get into each other's
  way.
* `KeyColumns.opened`, `ColumnCache.copyAll` — a cache after its opening, and calls
  made on it.
* `OpenCache.Marked`, `OpenCache.Written` — the marks and the lists after some calls,
  together `OpenCache.Follows`.
* `ColumnCache.AnswersAlike` — two caches that cannot be told apart.

## Main results

* `KeyColumns.opened_eq` — what a cache is that could be opened.
* `KeyColumns.status_copy_eq_ok_iff` — when a call succeeds on a new cache.
* `OpenCache.Follows.populate`, `ColumnCache.follows_copyAll` — one call, and any
  number of them.
* `copies_in_any_order` — **the order of the calls does not matter.**
-/

namespace Columnar

/-! ### Definitions -/

/-- A call to copy a chunk: the id it is marked under, and the position of its
first row. -/
structure CopyCall where
  chunkId : Nat
  chunk : Chunk
  base : Nat

/-- Whether the position is that of a row of the chunk. -/
def CopyCall.covers (call : CopyCall) (position : Nat) : Bool :=
  decide (call.base ≤ position ∧ position < call.base + call.chunk.positionCount)

/-- The calls have different ids and no position in common. -/
structure CopyCall.Apart (call other : CopyCall) : Prop where
  chunkId_ne : call.chunkId ≠ other.chunkId
  covers_eq : ∀ p, call.covers p = true → other.covers p = false

/-- Opens a new cache of the key columns for a number of positions and chunks. -/
def KeyColumns.opening (k : KeyColumns) (positions chunks : Nat) : Outcome ColumnCache :=
  (ColumnCache.ofSource k.source).openFor positions chunks

/-- The cache after its opening. -/
def KeyColumns.opened (k : KeyColumns) (positions chunks : Nat) : ColumnCache :=
  (k.opening positions chunks).state

namespace ColumnCache

def copy (c : ColumnCache) (call : CopyCall) : Outcome ColumnCache :=
  c.populate call.chunkId call.chunk call.base

/-- Makes calls one after the other, whether they succeed or not. -/
def copyAll (c : ColumnCache) (calls : List CopyCall) : ColumnCache × List (Outcome ColumnCache) :=
  Outcome.runAll copy c calls

/-- The caches give the same answers, with the same failures. -/
structure AnswersAlike (c d : ColumnCache) : Prop where
  isPopulated_eq : ∀ chunkId, c.isPopulated chunkId = d.isPopulated chunkId
  populatedChunks_eq : c.populatedChunks = d.populatedChunks
  sizeInBytes_eq : ∀ positions, c.sizeInBytes positions = d.sizeInBytes positions
  getInt_eq : ∀ list p, c.getInt list p = d.getInt list p
  getLong_eq : ∀ list p, c.getLong list p = d.getLong list p
  getDouble_eq : ∀ list p, c.getDouble list p = d.getDouble list p

end ColumnCache

/-- Whether the call succeeds on a newly opened cache. -/
def CopyCall.succeeds (k : KeyColumns) (positions chunks : Nat) (call : CopyCall) : Bool :=
  ((k.opened positions chunks).copy call).succeeded

theorem CopyCall.Apart.symm {call other : CopyCall} (h : call.Apart other) : other.Apart call where
  chunkId_ne := h.chunkId_ne.symm
  covers_eq := by
    intro p hp
    rw [← Bool.not_eq_true]
    intro hcovers
    rw [h.covers_eq p hcovers] at hp
    cases hp

/-! ### Opening -/

namespace KeyColumns

/-- A cache that could be opened has the lists that could be made. -/
theorem opened_eq {k : KeyColumns} {positions : Nat} {lists : List FlatList}
    (h : k.lists positions = .ok lists) (chunks : Nat) :
    k.opened positions chunks = ⟨k.source, .opened (.fresh lists positions chunks)⟩ := by
  have hlists : k.source.lists positions = .ok lists := h
  rw [opened, opening, ColumnCache.openFor_of_ok hlists]
  rfl

/-- **A cache is opened just if each of its lists fits an array.** -/
theorem opening_iff_hasRoom {k : KeyColumns} {positions chunks : Nat} :
    (k.opening positions chunks).status = .ok () ↔ k.HasRoom positions := by
  rw [← exists_lists_iff, opening]
  cases hlists : k.lists positions with
  | ok lists =>
    rw [ColumnCache.openFor_of_ok hlists]
    exact ⟨fun _ => ⟨lists, rfl⟩, fun _ => rfl⟩
  | error failure =>
    rw [ColumnCache.openFor_of_error hlists]
    exact ⟨nofun, nofun⟩

end KeyColumns

/-! ### Filling the lists -/

namespace KeyColumns

variable {k : KeyColumns} {chunk : Chunk} {base row p l column : Nat} {kind : ListKind}
  {columns : List (Nat × ListKind)} {lists others : List FlatList} {after : FlatList}

/-- Whether and why filling fails depends on the shapes of the lists. -/
theorem status_fillLists_congr (h : lists.map FlatList.shape = others.map FlatList.shape) :
    (fillLists chunk base columns lists).status = (fillLists chunk base columns others).status := by
  have hlists := congrArg Outcome.status (@map_cleared_fillLists chunk base columns lists)
  have hothers := congrArg Outcome.status (@map_cleared_fillLists chunk base columns others)
  rw [FlatList.map_cleared_eq_iff.2 h] at hlists
  exact hlists.trans hothers.symm

/-- Outside the range of the chunk filling changes nothing. -/
theorem get?_fillLists_outside (hbounded : chunk.Bounded)
    (hafter : (fillLists chunk base columns lists).state[l]? = some after)
    (hp : ¬ (base ≤ p ∧ p < base + chunk.positionCount)) :
    ∃ before, lists[l]? = some before ∧ after.kind = before.kind ∧
      after.get? p = before.get? p := by
  obtain ⟨before, hbefore, hcase⟩ := fillLists_each hafter
  rcases hcase with rfl | ⟨_, _, block, -, hblock, hcopied⟩
  · exact ⟨after, hbefore, rfl, rfl⟩
  · have hcount := hbounded block (List.mem_of_getElem? hblock)
    exact ⟨before, hbefore, hcopied.kind_eq, hcopied.outside p (by omega)⟩

/-- In the range of a chunk that was copied, a list that held zeros there holds what
it should. -/
theorem get?_fillLists_inside (hstatus : (fillLists chunk base columns lists).status = .ok ())
    (hcolumn : columns[l]? = some (column, kind))
    (hafter : (fillLists chunk base columns lists).state[l]? = some after)
    (hzero : ∀ before, lists[l]? = some before →
      before.get? (base + row) = some before.kind.zero) :
    after.get? (base + row) = chunk.listed column after.kind row := by
  obtain ⟨before, block, hbefore, hblock, hcopied⟩ := fillLists_all hstatus hcolumn hafter
  by_cases hrow : row < block.positionCount
  · exact hcopied.get?_eq_listed hblock hrow
  · -- The column ends before the row, so there is still the zero.
    rw [hcopied.outside _ (by omega), hzero before hbefore, hcopied.kind_eq,
      Chunk.listed_of_endsBefore ⟨block, hblock, Nat.le_of_not_lt hrow⟩]

end KeyColumns

/-! ### What a call depends on -/

namespace OpenCache

variable {o after : OpenCache} {k : KeyColumns} {chunkId base : Nat} {chunk : Chunk}

/-- Whether and why a chunk may not be copied depends on the mark for its id, and on
the numbers of marks. -/
theorem clearance_congr (hchunks : o.populated.length = after.populated.length)
    (hbit : o.populated.bit chunkId = after.populated.bit chunkId)
    (hpositions : o.filled.length = after.filled.length) :
    o.clearance chunkId chunk base = after.clearance chunkId chunk base := by
  unfold clearance
  rw [hchunks, hbit, hpositions]

/-- Apart from that, the shapes of the lists decide how a call ends. -/
theorem status_populate_congr
    (hclear : o.clearance chunkId chunk base = after.clearance chunkId chunk base)
    (hshapes : o.lists.map FlatList.shape = after.lists.map FlatList.shape) :
    (o.populate k.source chunkId chunk base).status =
      (after.populate k.source chunkId chunk base).status := by
  have hfill : (k.source.fill chunk base o.lists).status =
      (k.source.fill chunk base after.lists).status := KeyColumns.status_fillLists_congr hshapes
  cases h : o.clearance chunkId chunk base with
  | error failure =>
    rw [populate_of_not_clear h, populate_of_not_clear (hclear ▸ h)]
    rfl
  | ok stop =>
    cases hstatus : (k.source.fill chunk base o.lists).status with
    | error failure =>
      rw [populate_of_fill_error h hstatus, populate_of_fill_error (hclear ▸ h) (hfill ▸ hstatus)]
    | ok _ => rw [populate_of_fill_ok h hstatus, populate_of_fill_ok (hclear ▸ h) (hfill ▸ hstatus)]

/-- A call succeeds if the chunk may be copied and filling the lists succeeds. -/
theorem status_populate_eq_ok_iff {source : ListSource} :
    (o.populate source chunkId chunk base).status = .ok () ↔
      (∃ stop, o.clearance chunkId chunk base = .ok stop) ∧
        (source.fill chunk base o.lists).status = .ok () := by
  cases h : o.clearance chunkId chunk base with
  | error failure =>
    rw [populate_of_not_clear h]
    exact ⟨nofun, nofun⟩
  | ok stop =>
    cases hfill : (source.fill chunk base o.lists).status with
    | error failure =>
      rw [populate_of_fill_error h hfill]
      exact ⟨nofun, nofun⟩
    | ok _ =>
      rw [populate_of_fill_ok h hfill]
      exact ⟨fun _ => ⟨⟨stop, rfl⟩, rfl⟩, fun _ => rfl⟩

/-! ### The marks after some calls -/

/-- The marks are those of the calls that have succeeded. -/
structure Marked (ok : CopyCall → Bool) (positions chunks : Nat) (done : List CopyCall)
    (o : OpenCache) : Prop where
  populated_length : o.populated.length = chunks
  filled_length : o.filled.length = positions
  /-- No more room has been set aside than at first. -/
  populated_capacity : o.populated.words.capacity = (Bitmap.clear chunks).words.capacity
  filled_capacity : o.filled.words.capacity = (Bitmap.clear positions).words.capacity
  populated_bit : ∀ chunkId,
    o.populated.bit chunkId = done.any fun call => ok call && call.chunkId == chunkId
  populated_ones : o.populated.ones = done.countP ok
  filled_bit : ∀ p, o.filled.bit p = done.any fun call => ok call && call.covers p

variable {ok : CopyCall → Bool} {positions chunks : Nat} {done order : List CopyCall}
  {call : CopyCall} {columns : List (Nat × ListKind)} {lists : List FlatList}

/-- A call that fails marks nothing. -/
theorem Marked.of_failed (h : o.Marked ok positions chunks done) (hcall : ok call = false)
    (lists : List FlatList) : { o with lists }.Marked ok positions chunks (call :: done) where
  populated_length := h.populated_length
  filled_length := h.filled_length
  populated_capacity := h.populated_capacity
  filled_capacity := h.filled_capacity
  populated_bit chunkId := by
    rw [List.any_cons, hcall, Bool.false_and, Bool.false_or]
    exact h.populated_bit chunkId
  populated_ones := by
    rw [List.countP_cons_of_neg (by rw [hcall]; exact Bool.false_ne_true)]
    exact h.populated_ones
  filled_bit p := by
    rw [List.any_cons, hcall, Bool.false_and, Bool.false_or]
    exact h.filled_bit p

/-- A call that succeeds marks its id and its positions. -/
theorem Marked.mark (h : o.Marked ok positions chunks done) (hcall : ok call = true)
    (hid : call.chunkId < chunks) (hnew : o.populated.bit call.chunkId = false)
    (hle : call.base + call.chunk.positionCount ≤ positions) (lists : List FlatList) :
    ({ o with lists }.mark call.chunkId call.base
      (call.base + call.chunk.positionCount)).Marked ok positions chunks (call :: done) where
  populated_length := by rw [OpenCache.mark, Bitmap.length_put, h.populated_length]
  filled_length := by rw [OpenCache.mark, Bitmap.length_putRange, h.filled_length]
  populated_capacity := by rw [OpenCache.mark, Bitmap.capacity_put, h.populated_capacity]
  filled_capacity := by rw [OpenCache.mark, Bitmap.capacity_putRange, h.filled_capacity]
  populated_bit chunkId := by
    rw [OpenCache.mark, Bitmap.bit_put _ _ _ _ (h.populated_length ▸ hid), List.any_cons, hcall,
      ← h.populated_bit]
    by_cases heq : chunkId = call.chunkId
    · simp [heq]
    · simp [heq, Ne.symm heq]
  populated_ones := by
    rw [OpenCache.mark, Bitmap.ones_put (h.populated_length ▸ hid) hnew, h.populated_ones,
      List.countP_cons_of_pos hcall]
  filled_bit p := by
    rw [OpenCache.mark, Bitmap.bit_putRange _ _ _ (h.filled_length ▸ hle), List.any_cons, hcall,
      Bool.true_and, ← h.filled_bit]
    rfl

/-- The order of the calls does not show in the marks. -/
theorem Marked.perm (h : o.Marked ok positions chunks done) (hperm : done.Perm order) :
    o.Marked ok positions chunks order where
  populated_length := h.populated_length
  filled_length := h.filled_length
  populated_capacity := h.populated_capacity
  filled_capacity := h.filled_capacity
  populated_bit chunkId := by rw [h.populated_bit, hperm.any_eq]
  populated_ones := by rw [h.populated_ones, hperm.countP_eq]
  filled_bit p := by rw [h.filled_bit, hperm.any_eq]

/-! ### The lists after some calls -/

/-- The lists hold what they should at the positions of calls that succeeded, and
zeros where no call was made for. -/
structure Written (ok : CopyCall → Bool) (columns : List (Nat × ListKind)) (positions : Nat)
    (done : List CopyCall) (lists : List FlatList) : Prop where
  shapes_eq : lists.map FlatList.shape = columns.map fun column => (column.2, positions)
  get?_eq : ∀ {call : CopyCall} {l column row : Nat} {kind : ListKind} {list : FlatList},
    call ∈ done → ok call = true → columns[l]? = some (column, kind) → lists[l]? = some list →
      row < call.chunk.positionCount →
        list.get? (call.base + row) = call.chunk.listed column list.kind row
  get?_zero : ∀ {l p : Nat} {list : FlatList}, lists[l]? = some list → p < positions →
    (∀ call ∈ done, call.covers p = false) → list.get? p = some list.kind.zero

theorem Written.perm (h : Written ok columns positions done lists) (hperm : done.Perm order) :
    Written ok columns positions order lists where
  shapes_eq := h.shapes_eq
  get?_eq hmem := h.get?_eq (hperm.mem_iff.2 hmem)
  get?_zero hlist hp hapart := h.get?_zero hlist hp fun call hmem =>
    hapart call (hperm.mem_iff.1 hmem)

/-- A call that fails at once leaves the lists alone. -/
theorem Written.of_failed (h : Written ok columns positions done lists) (hcall : ok call = false) :
    Written ok columns positions (call :: done) lists where
  shapes_eq := h.shapes_eq
  get?_eq := by
    intro other l column row kind list hmem hother
    rcases List.mem_cons.1 hmem with rfl | hmem
    · rw [hcall] at hother
      cases hother
    · exact h.get?_eq hmem hother
  get?_zero hlist hp hapart := h.get?_zero hlist hp fun other hmem =>
    hapart other (List.mem_cons_of_mem _ hmem)

/-- **A call fills its own range and no other**, whether it succeeds or not. -/
theorem Written.fill (h : Written ok columns positions done lists) (hbounded : call.chunk.Bounded)
    (hapart : ∀ other ∈ done, call.Apart other)
    (hle : call.base + call.chunk.positionCount ≤ positions)
    (hcall : ok call = true →
      (KeyColumns.fillLists call.chunk call.base columns lists).status = .ok ()) :
    Written ok columns positions (call :: done)
      (KeyColumns.fillLists call.chunk call.base columns lists).state where
  shapes_eq := (KeyColumns.map_shape_fillLists _ _).trans h.shapes_eq
  get?_eq := by
    intro other l column row kind list hmem hother hcolumn hlist hrow
    rcases List.mem_cons.1 hmem with rfl | hmem
    · -- The range of the call is still as it was in new lists.
      refine KeyColumns.get?_fillLists_inside (hcall hother) hcolumn hlist fun before hbefore => ?_
      refine h.get?_zero hbefore (by omega) fun earlier hearlier => ?_
      exact (hapart earlier hearlier).covers_eq _ (decide_eq_true (by omega))
    · -- An earlier call wrote elsewhere, and its elements are still in place.
      have hcovers : call.covers (other.base + row) = false :=
        (hapart other hmem).symm.covers_eq _ (decide_eq_true (by omega))
      obtain ⟨before, hbefore, hkind, hget⟩ :=
        KeyColumns.get?_fillLists_outside hbounded hlist (of_decide_eq_false hcovers)
      rw [hget, hkind]
      exact h.get?_eq hmem hother hcolumn hbefore hrow
  get?_zero := by
    intro l p list hlist hp hcovers
    obtain ⟨hcall, hdone⟩ := List.forall_mem_cons.1 hcovers
    obtain ⟨before, hbefore, hkind, hget⟩ :=
      KeyColumns.get?_fillLists_outside hbounded hlist (of_decide_eq_false hcall)
    rw [hget, hkind]
    exact h.get?_zero hbefore hp hdone

end OpenCache

/-! ### One call -/

namespace OpenCache

variable {k : KeyColumns} {positions chunks : Nat} {done order : List CopyCall} {call : CopyCall}
  {o other : OpenCache} {lists : List FlatList}

/-- The marks and the lists of an open cache are those that some calls leave. -/
structure Follows (k : KeyColumns) (positions chunks : Nat) (done : List CopyCall)
    (o : OpenCache) : Prop where
  marked : o.Marked (CopyCall.succeeds k positions chunks) positions chunks done
  written : Written (CopyCall.succeeds k positions chunks) k.columns positions done o.lists

/-- No calls have been made on a cache that was just opened. -/
theorem follows_fresh (hlists : k.lists positions = .ok lists) :
    (fresh lists positions chunks).Follows k positions chunks [] where
  marked :=
    { populated_length := rfl
      filled_length := rfl
      populated_capacity := rfl
      filled_capacity := rfl
      populated_bit := Bitmap.bit_clear chunks
      populated_ones := rfl
      filled_bit := Bitmap.bit_clear positions }
  written :=
    { shapes_eq := KeyColumns.map_shape_lists hlists
      get?_eq hmem := absurd hmem List.not_mem_nil
      get?_zero := by
        intro l p list hlist hp _
        obtain ⟨-, rfl⟩ := KeyColumns.lists_eq_ok_iff.1 hlists
        have hlookup : (k.columns.map fun column =>
            FlatList.zeros column.2 positions)[l]? = some list := hlist
        rw [List.getElem?_map] at hlookup
        obtain ⟨⟨column, kind⟩, -, rfl⟩ := Option.map_eq_some_iff.1 hlookup
        rw [FlatList.get?_zeros hp]
        cases kind <;> rfl }

theorem Follows.perm (h : o.Follows k positions chunks done) (hperm : done.Perm order) :
    o.Follows k positions chunks order :=
  ⟨h.marked.perm hperm, h.written.perm hperm⟩

/-- **One call ends as it would on the newly opened cache**, if the calls before it do
not get in its way, and its effect is that of one call more. -/
theorem Follows.populate (hlists : k.lists positions = .ok lists)
    (h : o.Follows k positions chunks done) (hbounded : call.chunk.Bounded)
    (hapart : ∀ earlier ∈ done, call.Apart earlier) :
    (o.populate k.source call.chunkId call.chunk call.base).status =
      ((k.opened positions chunks).copy call).status ∧
    (o.populate k.source call.chunkId call.chunk call.base).state.Follows k positions chunks
      (call :: done) := by
  -- No call so far has marked the chunk, so this one fares as it would on new lists.
  have hnew : o.populated.bit call.chunkId = false := by
    rw [h.marked.populated_bit, List.any_eq_false]
    intro earlier hearlier hmarked
    rw [Bool.and_eq_true, beq_iff_eq] at hmarked
    exact (hapart earlier hearlier).chunkId_ne hmarked.2.symm
  have hclear : o.clearance call.chunkId call.chunk call.base =
      (fresh lists positions chunks).clearance call.chunkId call.chunk call.base :=
    clearance_congr h.marked.populated_length (hnew.trans (Bitmap.bit_clear ..).symm)
      h.marked.filled_length
  have hstatus : (o.populate k.source call.chunkId call.chunk call.base).status =
      ((k.opened positions chunks).copy call).status := by
    rw [KeyColumns.opened_eq hlists]
    exact status_populate_congr hclear
      (h.written.shapes_eq.trans (KeyColumns.map_shape_lists hlists).symm)
  have hok : call.succeeds k positions chunks =
      (o.populate k.source call.chunkId call.chunk call.base).status.isOk := by
    rw [hstatus]
    rfl
  refine ⟨hstatus, ?_⟩
  cases hcleared : o.clearance call.chunkId call.chunk call.base with
  | error failure =>
    rw [populate_of_not_clear hcleared] at hok ⊢
    exact ⟨h.marked.of_failed hok o.lists, h.written.of_failed hok⟩
  | ok stop =>
    obtain ⟨hid, -, -, hle, rfl⟩ := clearance_eq_ok_iff.1 hcleared
    rw [h.marked.populated_length] at hid
    rw [h.marked.filled_length] at hle
    cases hfill : (k.source.fill call.chunk call.base o.lists).status with
    | error failure =>
      rw [populate_of_fill_error hcleared hfill] at hok ⊢
      -- The copy may have stopped halfway, but within the range of the call.
      refine ⟨h.marked.of_failed hok _, h.written.fill hbounded hapart hle fun hcall => ?_⟩
      rw [hok] at hcall
      cases hcall
    | ok _ =>
      rw [populate_of_fill_ok hcleared hfill] at hok ⊢
      exact ⟨h.marked.mark hok hid hnew hle _, h.written.fill hbounded hapart hle fun _ => hfill⟩

/-! ### What shows of the calls -/

theorem listAt_of_not_filled {source : ListSource} {list p : Nat} (h : o.isFilled p = false) :
    (ColumnCache.mk source (.opened o)).listAt list p = .error (.misused (.notPopulated p)) := by
  unfold ColumnCache.listAt
  dsimp only
  rw [h]
  rfl

theorem listAt_of_filled {source : ListSource} {list p : Nat} (h : o.isFilled p = true) :
    (ColumnCache.mk source (.opened o)).listAt list p = Result.nth o.lists list := by
  unfold ColumnCache.listAt
  dsimp only
  rw [h]
  rfl

/-- Where lists may be read they hold the same after the same calls. -/
theorem Follows.get?_eq (h : o.Follows k positions chunks done)
    (h' : other.Follows k positions chunks done) {l p : Nat} {flat copy : FlatList}
    (hfilled : o.isFilled p = true) (hflat : o.lists[l]? = some flat)
    (hcopy : other.lists[l]? = some copy) (hkind : flat.kind = copy.kind) :
    flat.get? p = copy.get? p := by
  rw [isFilled, Bool.and_eq_true, h.marked.filled_bit, List.any_eq_true] at hfilled
  obtain ⟨-, call, hmem, hcall⟩ := hfilled
  rw [Bool.and_eq_true] at hcall
  obtain ⟨hok, hcovers⟩ := hcall
  obtain ⟨hle, hlt⟩ := of_decide_eq_true hcovers
  -- The position is that of a row of a chunk that was copied.
  obtain ⟨row, rfl⟩ := Nat.exists_eq_add_of_le hle
  have hrow : row < call.chunk.positionCount := by omega
  obtain ⟨⟨column, kind⟩, hcolumn, -⟩ : ∃ column, k.columns[l]? = some column ∧
      (column.2, positions) = flat.shape := by
    have hl := congrArg (·[l]?) h.written.shapes_eq
    simp only [List.getElem?_map, hflat, Option.map_some] at hl
    exact Option.map_eq_some_iff.1 hl.symm
  rw [h.written.get?_eq hmem hok hcolumn hflat hrow, h'.written.get?_eq hmem hok hcolumn hcopy hrow,
    hkind]

/-- Reads of lists have the same answers after the same calls, with the same
failures. -/
theorem Follows.read_eq (h : o.Follows k positions chunks done)
    (h' : other.Follows k positions chunks done) {α : Type} {read : FlatList → Nat → Result α}
    (hread : FlatList.ReadsValues read) (list p : Nat) :
    (do read (← (ColumnCache.mk k.source (.opened o)).listAt list p) p) =
      (do read (← (ColumnCache.mk k.source (.opened other)).listAt list p) p : Result α) := by
  have hsame : other.isFilled p = o.isFilled p := by
    rw [isFilled, isFilled, h.marked.filled_length, h'.marked.filled_length, h.marked.filled_bit,
      h'.marked.filled_bit]
  cases hfilled : o.isFilled p with
  | false => rw [listAt_of_not_filled hfilled, listAt_of_not_filled (hsame.trans hfilled)]
  | true =>
    rw [listAt_of_filled hfilled, listAt_of_filled (hsame.trans hfilled)]
    -- The lists are of one shape, and equal wherever there is a mark.
    have hshape : o.lists[list]?.map FlatList.shape = other.lists[list]?.map FlatList.shape := by
      rw [← List.getElem?_map, ← List.getElem?_map, h.written.shapes_eq, h'.written.shapes_eq]
    unfold Result.nth
    cases hflat : o.lists[list]? with
    | none =>
      rw [hflat, Option.map_none, eq_comm, Option.map_eq_none_iff] at hshape
      rw [hshape]
    | some flat =>
      rw [hflat, Option.map_some, eq_comm] at hshape
      obtain ⟨copy, hcopy, hshape⟩ := Option.map_eq_some_iff.1 hshape
      have hkind : flat.kind = copy.kind := (congrArg Prod.fst hshape).symm
      rw [hcopy]
      exact hread hkind (h.get?_eq h' hfilled hflat hcopy hkind)

/-- The bytes that are taken are settled by the shapes of the lists and the room of
the bitmaps. -/
theorem Follows.sizeInBytes_eq (h : o.Follows k positions chunks done)
    (h' : other.Follows k positions chunks done) : o.sizeInBytes = other.sizeInBytes := by
  unfold sizeInBytes Bitmap.sizeInBytes
  rw [FlatList.map_sizeInBytes, FlatList.map_sizeInBytes, h.written.shapes_eq,
    h'.written.shapes_eq, h.marked.populated_capacity, h'.marked.populated_capacity,
    h.marked.filled_capacity, h'.marked.filled_capacity]

/-- **Two caches after the same calls cannot be told apart.** -/
theorem Follows.answersAlike (h : o.Follows k positions chunks done)
    (h' : other.Follows k positions chunks done) :
    (ColumnCache.mk k.source (.opened o)).AnswersAlike ⟨k.source, .opened other⟩ where
  isPopulated_eq chunkId := by
    show o.isPopulated chunkId = other.isPopulated chunkId
    rw [isPopulated, isPopulated, h.marked.populated_length, h'.marked.populated_length,
      h.marked.populated_bit, h'.marked.populated_bit]
  populatedChunks_eq := h.marked.populated_ones.trans h'.marked.populated_ones.symm
  sizeInBytes_eq _ := congrArg Except.ok (h.sizeInBytes_eq h')
  getInt_eq := h.read_eq h' FlatList.readsValues_getInt
  getLong_eq := h.read_eq h' FlatList.readsValues_getLong
  getDouble_eq := h.read_eq h' FlatList.readsValues_getDouble

end OpenCache

/-! ### When a call succeeds -/

/-- **A call on a newly opened cache succeeds if its id and its range are among those
the cache was opened for, and each list can take its column.** -/
theorem KeyColumns.status_copy_eq_ok_iff {k : KeyColumns} {positions chunks : Nat} {call : CopyCall}
    {lists : List FlatList} (hlists : k.lists positions = .ok lists)
    (hpositions : positions < Size.limit) (hbounded : call.chunk.Bounded) :
    ((k.opened positions chunks).copy call).status = .ok () ↔
      call.chunkId < chunks ∧ call.base + call.chunk.positionCount ≤ positions ∧
        k.Takes call.chunk := by
  have hopened : ((k.opened positions chunks).copy call).status =
      ((OpenCache.fresh lists positions chunks).populate k.source call.chunkId call.chunk
        call.base).status := by
    rw [opened_eq hlists]
    rfl
  have hfill : call.base + call.chunk.positionCount ≤ positions →
      ((k.source.fill call.chunk call.base lists).status = .ok () ↔ k.Takes call.chunk) :=
    fun hle => status_fillLists_eq_ok_iff hbounded (by omega) hle (map_shape_lists hlists)
  rw [hopened, OpenCache.status_populate_eq_ok_iff]
  simp only [OpenCache.clearance_eq_ok_iff]
  constructor
  · rintro ⟨⟨_, hid, -, -, hle, -⟩, hstatus⟩
    exact ⟨hid, hle, (hfill hle).1 hstatus⟩
  · rintro ⟨hid, hle, hcolumns⟩
    have hlimit : call.base + call.chunk.positionCount < Size.limit :=
      Nat.lt_of_le_of_lt hle hpositions
    exact ⟨⟨_, hid, Bitmap.bit_clear .., hlimit, hle, rfl⟩, (hfill hle).2 hcolumns⟩

/-! ### Any number of calls -/

namespace ColumnCache

variable {k : KeyColumns} {positions chunks : Nat} {lists : List FlatList}

/-- **Calls that do not get in each other's way end as they would on the newly opened
cache**, and have the effect of all of them. -/
theorem follows_copyAll (hlists : k.lists positions = .ok lists) :
    ∀ (order : List CopyCall) {done : List CopyCall} {o : OpenCache},
      o.Follows k positions chunks done → order.Pairwise CopyCall.Apart →
      (∀ call ∈ order, call.chunk.Bounded ∧ ∀ earlier ∈ done, call.Apart earlier) →
        ((ColumnCache.mk k.source (.opened o)).copyAll order).2.map Outcome.status =
          order.map (fun call => ((k.opened positions chunks).copy call).status) ∧
        ∃ after : OpenCache,
          ((ColumnCache.mk k.source (.opened o)).copyAll order).1 = ⟨k.source, .opened after⟩ ∧
            after.Follows k positions chunks (order.reverse ++ done) := by
  intro order
  induction order with
  | nil => intro done o h _ _; exact ⟨rfl, o, rfl, h⟩
  | cons call rest ih =>
    intro done o h hapart hcalls
    obtain ⟨hfirst, hrest⟩ := List.pairwise_cons.1 hapart
    obtain ⟨⟨hbounded, hdone⟩, hothers⟩ := List.forall_mem_cons.1 hcalls
    obtain ⟨hstatus, hfollows⟩ := h.populate hlists hbounded hdone
    -- What is apart from all calls done has to be apart from this one as well.
    have hlater : ∀ other ∈ rest, other.chunk.Bounded ∧
        ∀ earlier ∈ call :: done, other.Apart earlier := by
      intro other hother
      obtain ⟨hbound, hearlier⟩ := hothers other hother
      exact ⟨hbound, List.forall_mem_cons.2 ⟨(hfirst other hother).symm, hearlier⟩⟩
    obtain ⟨hall, after, hafter, hend⟩ := ih hfollows hrest hlater
    refine ⟨?_, after, hafter, ?_⟩
    · show _ :: _ = _
      rw [List.map_cons]
      exact congrArg₂ List.cons hstatus hall
    · rwa [List.reverse_cons, List.append_assoc]

end ColumnCache

/-! ### The main result -/

/-- **The order of the calls does not matter.**  On a cache that could be opened for
some numbers of positions and chunks, let finished chunks be copied by calls with
different ids and no position in common.  In whatever order they are made, each of
them ends as it would if it were the only one: it succeeds if its id is below the
number of chunks, its range ends within the positions, and each key column is there
and of a type that its list can take.  In the end the chunks copied are those of the
calls that succeed, and no answer of the cache tells the order. -/
theorem copies_in_any_order (k : KeyColumns) {positions chunks : Nat}
    (hpositions : positions < Size.limit)
    (hopening : (k.opening positions chunks).status = .ok ()) {calls : List CopyCall}
    (hbuilt : ∀ call ∈ calls, call.chunk.Built) (hapart : calls.Pairwise CopyCall.Apart) :
    (∀ call ∈ calls, call.succeeds k positions chunks = true ↔
      call.chunkId < chunks ∧ call.base + call.chunk.positionCount ≤ positions ∧
        k.Takes call.chunk) ∧
    ∀ order : List CopyCall, order.Perm calls →
      ((k.opened positions chunks).copyAll order).2.map Outcome.status =
        order.map (fun call => ((k.opened positions chunks).copy call).status) ∧
      (∀ chunkId, ((k.opened positions chunks).copyAll order).1.isPopulated chunkId = true ↔
        ∃ call ∈ calls, call.succeeds k positions chunks = true ∧ call.chunkId = chunkId) ∧
      ((k.opened positions chunks).copyAll order).1.populatedChunks =
        calls.countP (CopyCall.succeeds k positions chunks) ∧
      ((k.opened positions chunks).copyAll order).1.AnswersAlike
        ((k.opened positions chunks).copyAll calls).1 := by
  obtain ⟨lists, hlists⟩ : ∃ lists, k.lists positions = .ok lists :=
    KeyColumns.exists_lists_iff.2 (KeyColumns.opening_iff_hasRoom.1 hopening)
  have hsucceeds : ∀ call ∈ calls, call.succeeds k positions chunks = true ↔
      call.chunkId < chunks ∧ call.base + call.chunk.positionCount ≤ positions ∧
        k.Takes call.chunk := by
    intro call hmem
    rw [← KeyColumns.status_copy_eq_ok_iff hlists hpositions (hbuilt call hmem).bounded]
    exact Outcome.succeeded_iff
  -- The calls in any order leave a cache that follows them in the order given.
  have hrun : ∀ order : List CopyCall, order.Perm calls →
      ((k.opened positions chunks).copyAll order).2.map Outcome.status =
        order.map (fun call => ((k.opened positions chunks).copy call).status) ∧
      ∃ after : OpenCache, ((k.opened positions chunks).copyAll order).1 =
        ⟨k.source, .opened after⟩ ∧ after.Follows k positions chunks calls := by
    intro order hperm
    have hpairwise : order.Pairwise CopyCall.Apart :=
      (hperm.pairwise_iff fun h => h.symm).2 hapart
    obtain ⟨hstatus, after, hafter, hfollows⟩ :=
      ColumnCache.follows_copyAll hlists order (OpenCache.follows_fresh hlists) hpairwise
        fun call hmem => ⟨(hbuilt call (hperm.mem_iff.1 hmem)).bounded,
          fun earlier hearlier => absurd hearlier List.not_mem_nil⟩
    rw [List.append_nil] at hfollows
    rw [KeyColumns.opened_eq hlists] at hstatus ⊢
    exact ⟨hstatus, after, hafter, hfollows.perm ((List.reverse_perm order).trans hperm)⟩
  obtain ⟨-, last, hlast, hlastFollows⟩ := hrun calls (List.Perm.refl calls)
  refine ⟨hsucceeds, fun order hperm => ?_⟩
  obtain ⟨hstatus, after, hafter, hfollows⟩ := hrun order hperm
  rw [hafter, hlast]
  refine ⟨hstatus, fun chunkId => ?_, hfollows.marked.populated_ones,
    hfollows.answersAlike hlastFollows⟩
  show after.isPopulated chunkId = true ↔ _
  rw [OpenCache.isPopulated, hfollows.marked.populated_length, hfollows.marked.populated_bit,
    Bool.and_eq_true, decide_eq_true_eq, List.any_eq_true]
  simp only [Bool.and_eq_true, beq_iff_eq]
  constructor
  · rintro ⟨-, hcall⟩
    exact hcall
  · rintro ⟨call, hmem, hcall, rfl⟩
    exact ⟨((hsucceeds call hmem).1 hcall).1, call, hmem, hcall, rfl⟩

/-- Two chunks that are copied out of order, and between them one whose second column
no list of longs takes. -/
theorem copies_in_any_order_three :
    ∃ whole half narrow : Chunk, ∃ order last,
      ((ChunkBuilder.ofTypes [.long, .int]).appendRows
        [[.long 7, .int 1], [.long 8, .null]]).state.build = whole ∧
      ((ChunkBuilder.ofTypes [.long, .boolean]).appendRows
        [[.long 9, .boolean true]]).state.build = half ∧
      ((ChunkBuilder.ofTypes [.int, .long]).appendRows [[.int 5, .long 6]]).state.build = narrow ∧
      [CopyCall.mk 1 narrow 1, ⟨0, half, 0⟩, ⟨2, whole, 2⟩] = order ∧
      ((KeyColumns.opened ⟨[(0, .long), (1, .long)]⟩ 4 3).copyAll order).1 = last ∧
      order.Perm [⟨2, whole, 2⟩, ⟨0, half, 0⟩, ⟨1, narrow, 1⟩] ∧
      (last.isPopulated 0, last.isPopulated 1, last.isPopulated 2) = (false, true, true) ∧
      (last.getLong 0 0, last.getLong 0 1, last.getLong 1 2) =
        (.error (.misused (.notPopulated 0)), .ok 5, .ok 1) ∧
      last.AnswersAlike ((KeyColumns.opened ⟨[(0, .long), (1, .long)]⟩ 4 3).copyAll
        [⟨2, whole, 2⟩, ⟨0, half, 0⟩, ⟨1, narrow, 1⟩]).1 := by
  refine ⟨_, _, _, _, _, rfl, rfl, rfl, rfl, rfl, List.reverse_perm [_, _, _], by cbv, by cbv, ?_⟩
  refine ((copies_in_any_order ⟨[(0, .long), (1, .long)]⟩ (by decide) rfl ?_ ?_).2 _
    (List.reverse_perm [_, _, _])).2.2.2
  · simp only [List.forall_mem_cons]
    exact ⟨.build ((ChunkBuilder.made_ofTypes _).appendRows _),
      .build ((ChunkBuilder.made_ofTypes _).appendRows _),
      .build ((ChunkBuilder.made_ofTypes _).appendRows _), List.forall_mem_nil _⟩
  · have hapart : ∀ {call other : CopyCall}, call.chunkId ≠ other.chunkId →
        other.base + other.chunk.positionCount ≤ call.base → call.Apart other := by
      intro call other hne hle
      refine ⟨hne, fun p hp => decide_eq_false ?_⟩
      have hcovers := of_decide_eq_true hp
      omega
    simp only [List.pairwise_cons, List.forall_mem_cons]
    exact ⟨⟨hapart (by decide) (by decide), hapart (by decide) (by decide), List.forall_mem_nil _⟩,
      ⟨(hapart (by decide) (by decide)).symm, List.forall_mem_nil _⟩, List.forall_mem_nil _, .nil⟩

end Columnar
