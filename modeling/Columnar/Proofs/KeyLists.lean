import Columnar.Cache.KeyColumns
import Columnar.Proofs.CopyBlock
import Columnar.Proofs.Results

/-!
# Filling the lists of key columns

Filling goes through the lists in order and stops at the first that cannot take
its column.  Each list is either left as it was or has its whole column copied;
after a success all have.  No list ever changes its kind or its length.

## Main definitions

* `FlatList.shape` — the kind and the length of a list.
* `Chunk.Rectangular` — a chunk whose blocks are as long as it is.
* `KeyColumns.HasRoom` — each list fits an array.

## Main results

* `KeyColumns.lists_eq_ok_iff` — when new lists can be made, and what they are.
* `KeyColumns.map_shape_fillLists` — filling keeps the shapes.
* `KeyColumns.fillLists_each` — what filling does to a list, failed or not.
* `KeyColumns.fillLists_all` — what it does to a list if it succeeds.
-/

namespace Columnar

/-- The kind and the length of a list. -/
def FlatList.shape (list : FlatList) : ListKind × Nat := (list.kind, list.length)

theorem FlatList.shape_zeros (kind : ListKind) (n : Nat) : (zeros kind n).shape = (kind, n) := by
  cases kind <;> simp [zeros, shape, FlatList.kind, length]

theorem FlatList.Copied.shape_eq {before after : FlatList} {block : Block} {base : Nat}
    (h : before.Copied block base after) : after.shape = before.shape := by
  rw [shape, h.kind_eq, h.length_eq, shape]

/-- The bytes of lists are settled by their kinds and lengths. -/
theorem FlatList.map_sizeInBytes (lists : List FlatList) : lists.map sizeInBytes =
    (lists.map shape).map fun shape => shape.2 * shape.1.elementSize := by
  rw [List.map_map]
  rfl

/-- All blocks of the chunk are as long as the chunk. -/
def Chunk.Rectangular (c : Chunk) : Prop :=
  ∀ block ∈ c.blocks, block.positionCount = c.positionCount

namespace KeyColumns

/-- The list of each column fits an array. -/
def HasRoom (k : KeyColumns) (n : Nat) : Prop :=
  ∀ column ∈ k.columns, n * column.2.elementSize < Size.arrayLimit

/-- **The lists can be made just if each of them fits an array**, and are zeros
then. -/
theorem lists_eq_ok_iff {k : KeyColumns} {n : Nat} {lists : List FlatList} :
    k.lists n = .ok lists ↔
      k.HasRoom n ∧ lists = k.columns.map fun column => .zeros column.2 n := by
  constructor
  · intro h
    have hall : ∀ column ∈ k.columns, ∃ list, FlatList.ofLength column.2 n = .ok list :=
      Result.exists_mapM_iff.1 ⟨lists, h⟩
    refine ⟨fun column hcolumn => ?_,
      Result.eq_map_of_mapM (fun hlist => (FlatList.ofLength_eq_ok_iff.1 hlist).2) h⟩
    obtain ⟨list, hlist⟩ := hall column hcolumn
    exact (FlatList.ofLength_eq_ok_iff.1 hlist).1
  · rintro ⟨hroom, rfl⟩
    exact Result.mapM_eq_ok_map fun column hcolumn =>
      FlatList.ofLength_eq_ok_iff.2 ⟨hroom column hcolumn, rfl⟩

/-- If lists cannot be made, that is because one is too long. -/
theorem eq_of_lists_error {k : KeyColumns} {n : Nat} {failure : Failure}
    (h : k.lists n = .error failure) : failure = .misused .capacityOverflow := by
  obtain ⟨-, column, -, -, -, hfailed⟩ := Result.mapM_eq_error_iff.1 h
  exact (FlatList.ofLength_eq_error_iff.1 hfailed).2

theorem lists_of_not_hasRoom {k : KeyColumns} {n : Nat} (h : ¬ k.HasRoom n) :
    k.lists n = .error (.misused .capacityOverflow) := by
  cases hlists : k.lists n with
  | ok lists => exact absurd (lists_eq_ok_iff.1 hlists).1 h
  | error failure => rw [eq_of_lists_error hlists]

/-- Whether lists can be made is settled by whether they fit. -/
theorem exists_lists_iff {k : KeyColumns} {n : Nat} :
    (∃ lists, k.lists n = .ok lists) ↔ k.HasRoom n := by
  constructor
  · rintro ⟨lists, h⟩
    exact (lists_eq_ok_iff.1 h).1
  · intro hroom
    exact ⟨_, lists_eq_ok_iff.2 ⟨hroom, rfl⟩⟩

/-- New lists have the kinds of their columns and one element per position. -/
theorem map_shape_lists {k : KeyColumns} {n : Nat} {lists : List FlatList}
    (h : k.lists n = .ok lists) :
    lists.map FlatList.shape = k.columns.map fun column => (column.2, n) := by
  rw [(lists_eq_ok_iff.1 h).2, List.map_map]
  exact List.map_congr_left fun column _ => FlatList.shape_zeros column.2 n

/-- Copies one column of a chunk into its list. -/
def copyColumn (chunk : Chunk) (base column : Nat) (list : FlatList) : Result FlatList := do
  list.copyBlock (← chunk.block column) base

theorem copyColumn_copied {chunk : Chunk} {base column : Nat} {before after : FlatList}
    (h : copyColumn chunk base column before = .ok after) :
    ∃ block, chunk.blocks[column]? = some block ∧ before.Copied block base after := by
  obtain ⟨block, hblock, hcopy⟩ := Result.bind_eq_ok_iff.1 h
  exact ⟨block, Result.nth_eq_ok_iff.1 hblock, FlatList.copyBlock_copied hcopy⟩

variable {chunk : Chunk} {base column : Nat} {kind : ListKind} {columns : List (Nat × ListKind)}
  {list after : FlatList} {lists : List FlatList}

theorem fillLists_of_error {failure : Failure}
    (h : copyColumn chunk base column list = .error failure) :
    fillLists chunk base ((column, kind) :: columns) (list :: lists) =
      .failed (list :: lists) failure := by
  unfold fillLists
  unfold copyColumn at h
  simp only [h]

theorem fillLists_of_ok (h : copyColumn chunk base column list = .ok after) :
    fillLists chunk base ((column, kind) :: columns) (list :: lists) =
      (fillLists chunk base columns lists).map (after :: ·) := by
  rw [fillLists]
  unfold copyColumn at h
  simp only [h]

/-- **Filling keeps the kinds and lengths of all lists**, whether it succeeds or
not. -/
theorem map_shape_fillLists : ∀ (columns : List (Nat × ListKind)) (lists : List FlatList),
    (fillLists chunk base columns lists).state.map FlatList.shape =
      lists.map FlatList.shape := by
  intro columns
  induction columns with
  | nil => intro lists; rfl
  | cons head columns ih =>
    obtain ⟨column, kind⟩ := head
    intro lists
    cases lists with
    | nil => rfl
    | cons list lists =>
      cases h : copyColumn chunk base column list with
      | error failure => rw [fillLists_of_error h, Outcome.state_failed]
      | ok after =>
        obtain ⟨block, -, hcopied⟩ := copyColumn_copied h
        rw [fillLists_of_ok h, Outcome.state_map, List.map_cons, ih, hcopied.shape_eq,
          List.map_cons]

/-- **Each list is left alone or has its whole column copied**, whether filling
succeeds or not. -/
theorem fillLists_each : ∀ {columns : List (Nat × ListKind)} {lists : List FlatList} {l : Nat}
    {after : FlatList}, (fillLists chunk base columns lists).state[l]? = some after →
      ∃ before, lists[l]? = some before ∧
        (after = before ∨ ∃ column kind block, columns[l]? = some (column, kind) ∧
          chunk.blocks[column]? = some block ∧ before.Copied block base after) := by
  intro columns
  induction columns with
  | nil => intro lists l after h; exact ⟨after, h, Or.inl rfl⟩
  | cons head columns ih =>
    obtain ⟨column, kind⟩ := head
    intro lists l after h
    cases lists with
    | nil => exact ⟨after, h, Or.inl rfl⟩
    | cons list lists =>
      cases hcopy : copyColumn chunk base column list with
      | error failure =>
        rw [fillLists_of_error hcopy] at h
        exact ⟨after, h, Or.inl rfl⟩
      | ok first =>
        rw [fillLists_of_ok hcopy, Outcome.state_map] at h
        -- The list in front has its copy, the others are left to the other columns.
        cases l with
        | zero =>
          obtain rfl : first = after := by simpa using h
          obtain ⟨block, hblock, hcopied⟩ := copyColumn_copied hcopy
          exact ⟨list, rfl, Or.inr ⟨column, kind, block, rfl, hblock, hcopied⟩⟩
        | succ l =>
          rw [List.getElem?_cons_succ] at h
          obtain ⟨before, hbefore, hcase⟩ := ih h
          exact ⟨before, hbefore, hcase⟩

/-- **After a success every list has its own column copied.** -/
theorem fillLists_all : ∀ {columns : List (Nat × ListKind)} {lists : List FlatList},
    (fillLists chunk base columns lists).status = .ok () →
      ∀ {l column : Nat} {kind : ListKind} {after : FlatList},
        columns[l]? = some (column, kind) →
          (fillLists chunk base columns lists).state[l]? = some after →
            ∃ before block, lists[l]? = some before ∧ chunk.blocks[column]? = some block ∧
              before.Copied block base after := by
  intro columns
  induction columns with
  | nil => intro lists _ l column kind after hcolumn; simp at hcolumn
  | cons head columns ih =>
    obtain ⟨first, firstKind⟩ := head
    intro lists hstatus l column kind after hcolumn hafter
    cases lists with
    | nil => simp [fillLists] at hafter
    | cons list lists =>
      cases hcopy : copyColumn chunk base first list with
      | error failure =>
        rw [fillLists_of_error hcopy] at hstatus
        cases hstatus
      | ok copy =>
        rw [fillLists_of_ok hcopy] at hstatus hafter
        rw [Outcome.state_map] at hafter
        cases l with
        | zero =>
          obtain ⟨rfl, rfl⟩ : first = column ∧ firstKind = kind := by simpa using hcolumn
          obtain rfl : copy = after := by simpa using hafter
          obtain ⟨block, hblock, hcopied⟩ := copyColumn_copied hcopy
          exact ⟨list, block, rfl, hblock, hcopied⟩
        | succ l =>
          rw [List.getElem?_cons_succ] at hcolumn hafter
          obtain ⟨before, block, hbefore, hblock, hcopied⟩ := ih hstatus hcolumn hafter
          exact ⟨before, block, hbefore, hblock, hcopied⟩

end KeyColumns

end Columnar
