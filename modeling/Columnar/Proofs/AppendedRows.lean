import Columnar.Proofs.RowStops
import Mathlib.Data.List.Basic

/-!
# What the columns take of the rows

A row fits if it has a value for each column and each value is a null or of the type
of its column.  Any other row fails, for the first of these reasons that applies.  A
row of the wrong length leaves no trace, but one whose values are checked is taken by
the columns before the first value that does not fit.  So a column holds its own
values of just those rows that fit up to and including it, whatever rows were refused
before and after.

## Main definitions

* `ChunkBuilder.Fits`, `ChunkBuilder.FitsThrough` — the rows that fit, as a whole or
  up to a column.
* `ChunkBuilder.Refuses` — why a row is refused.
* `ChunkBuilder.taken` — the values of a column in the rows that fit up to it.

## Main results

* `ChunkBuilder.appendRow_eq_error_iff` — **why a row fails.**
* `ChunkBuilder.lt_reach_iff` — a row reaches a column if it fits up to it.
* `ChunkBuilder.columns_take_fitting_values` — **what a chunk holds of the rows it was
  built from.**
-/

namespace Columnar

namespace ChunkBuilder

/-! ### Rows that fit -/

/-- The row has a value for each column, and each fits its column. -/
def Fits (types : List DataType) (row : List Value) : Prop :=
  row.length = types.length ∧ ∀ cell ∈ types.zip row, cell.1.accepts cell.2 = true

/-- The row has a value for each column, and those up to and including the given
column fit. -/
def FitsThrough (types : List DataType) (column : Nat) (row : List Value) : Prop :=
  row.length = types.length ∧
    ∀ cell ∈ (types.zip row).take (column + 1), cell.1.accepts cell.2 = true

instance (types : List DataType) (column : Nat) (row : List Value) :
    Decidable (FitsThrough types column row) :=
  inferInstanceAs (Decidable (_ ∧ _))

/-- Why a row is refused. -/
inductive Refuses (types : List DataType) (row : List Value) : Failure → Prop
  /-- It has too few values or too many. -/
  | length : row.length ≠ types.length →
      Refuses types row (.misused (.rowLength row.length types.length))
  /-- The first value that does not fit is of another type than its column. -/
  | value {before after : List (DataType × Value)} {type : DataType} {value : Value} :
      row.length = types.length → types.zip row = before ++ (type, value) :: after →
        (∀ cell ∈ before, cell.1.accepts cell.2 = true) → type.accepts value = false →
          Refuses types row (.misused (.valueType value type))

/-- Checks that a value fits a column of the type. -/
def checkCell (cell : DataType × Value) : Result Unit :=
  Result.require (cell.1.accepts cell.2) (.valueType cell.2 cell.1)

/-- The values that a column takes of some rows: its own in those that fit up to
it. -/
def taken (types : List DataType) (rows : List (List Value)) (column : Nat) : List Value :=
  (rows.filter fun row => decide (FitsThrough types column row)).filterMap (·[column]?)

variable {c : ChunkBuilder} {types : List DataType} {rows : List (List Value)} {row : List Value}

/-! ### When a row fails -/

theorem checkCell_eq_ok_iff {cell : DataType × Value} {u : Unit} :
    checkCell cell = .ok u ↔ cell.1.accepts cell.2 = true :=
  Result.require_eq_ok_iff

theorem checkCell_eq_error_iff {cell : DataType × Value} {failure : Failure} :
    checkCell cell = .error failure ↔
      cell.1.accepts cell.2 = false ∧ failure = .misused (.valueType cell.2 cell.1) :=
  Result.require_eq_error_iff

/-- Handing values to columns is checking them one by one. -/
theorem status_appendCells : ∀ (builders : List BlockBuilder) (values : List Value),
    (appendCells builders values).status =
      (fun _ => ()) <$> ((builders.map BlockBuilder.type).zip values).mapM checkCell := by
  intro builders
  induction builders with
  | nil => intro values; rfl
  | cons builder builders ih =>
    intro values
    cases values with
    | nil => rfl
    | cons value values =>
      -- A builder is asked for nothing but its type.
      have hcheck : checkCell (builder.type, value) = builder.check value := by
        rw [BlockBuilder.check, BlockBuilder.accepts_eq]
        rfl
      rw [List.map_cons, List.zip_cons_cons, List.mapM_cons, appendCells, hcheck]
      cases builder.check value with
      | error failure => rfl
      | ok _ =>
        dsimp only
        rw [Outcome.status_map, ih values]
        cases ((builders.map BlockBuilder.type).zip values).mapM checkCell <;> rfl

section Row

variable (h : c.builders.map BlockBuilder.type = types)

include h

/-- A row of the right length is checked value by value. -/
theorem appendRow_of_length_eq (hrow : row.length = types.length) :
    (c.appendRow row).status = (fun _ => ()) <$> (types.zip row).mapM checkCell := by
  have hlength : row.length = c.builders.length := by rw [hrow, ← h, List.length_map]
  rw [appendRow, if_pos hlength, Outcome.status_map, status_appendCells, h]

/-- A row of the wrong length is refused and changes nothing. -/
theorem appendRow_of_length_ne (hrow : row.length ≠ types.length) :
    c.appendRow row = .failed c (.misused (.rowLength row.length types.length)) := by
  have hlength : c.builders.length = types.length := by rw [← h, List.length_map]
  rw [appendRow, hlength, if_neg hrow]

/-- **A row succeeds if it fits.** -/
theorem appendRow_eq_ok_iff : (c.appendRow row).status = .ok () ↔ Fits types row := by
  by_cases hrow : row.length = types.length
  · have hall : (∃ units, (types.zip row).mapM checkCell = .ok units) ↔
        ∀ cell ∈ types.zip row, cell.1.accepts cell.2 = true := by
      simp only [Result.exists_mapM_iff, checkCell_eq_ok_iff, exists_const]
    rw [appendRow_of_length_eq h hrow, Result.map_eq_ok_iff, Fits, ← hall]
    simp only [and_true, hrow, true_and]
  · rw [appendRow_of_length_ne h hrow]
    exact iff_of_false nofun fun hfits => hrow hfits.1

/-- **Why a row fails**: it is of the wrong length, or the first value that does not
fit is of the wrong type. -/
theorem appendRow_eq_error_iff {failure : Failure} :
    (c.appendRow row).status = .error failure ↔ Refuses types row failure := by
  -- A row of the wrong width is refused before any of its values is looked at.
  by_cases hrow : row.length = types.length
  · rw [appendRow_of_length_eq h hrow, Result.map_eq_error_iff, Result.mapM_eq_error_iff]
    simp only [checkCell_eq_ok_iff, exists_const, checkCell_eq_error_iff]
    constructor
    · rintro ⟨before, ⟨type, value⟩, after, hsplit, hbefore, hvalue, rfl⟩
      exact .value hrow hsplit hbefore hvalue
    · rintro (hne | ⟨-, hsplit, hbefore, hvalue⟩)
      · exact absurd hrow hne
      · exact ⟨_, _, _, hsplit, hbefore, hvalue, rfl⟩
  · rw [appendRow_of_length_ne h hrow]
    constructor
    · rintro ⟨⟩
      exact .length hrow
    · rintro (_ | ⟨hlength, -, -, -⟩)
      · rfl
      · exact absurd hlength hrow

end Row

/-- No row of a run fails if all of them fit. -/
theorem Holds.forall_run_ok_iff : ∀ (added : List (List Value)) {c : ChunkBuilder}
    {rows : List (List Value)}, c.Holds types rows →
      ((∀ outcome ∈ (c.run added).2, outcome.status = .ok ()) ↔
        ∀ row ∈ added, Fits types row) := by
  intro added
  induction added with
  | nil => intro c rows _; exact ⟨fun _ => nofun, fun _ => nofun⟩
  | cons row rest ih =>
    intro c rows h
    have hrun : (c.run (row :: rest)).2 =
        c.appendRow row :: ((c.appendRow row).state.run rest).2 := rfl
    rw [hrun, List.forall_mem_cons, List.forall_mem_cons, appendRow_eq_ok_iff h.types_eq,
      ih (h.appendRow row)]

/-! ### How far a row comes -/

theorem lt_fitting_iff : ∀ {types : List DataType} {values : List Value} {i : Nat},
    i < fitting types values ↔ i < (types.zip values).length ∧
      ∀ cell ∈ (types.zip values).take (i + 1), cell.1.accepts cell.2 = true := by
  intro types
  induction types with
  | nil => intro values i; simp [fitting]
  | cons type types ih =>
    intro values i
    cases values with
    | nil => simp [fitting]
    | cons value values =>
      rw [fitting, List.zip_cons_cons, List.take_succ_cons, List.forall_mem_cons, List.length_cons]
      -- A value that does not fit ends the row, whatever comes after it.
      cases hfits : type.accepts value with
      | false => simp
      | true =>
        rw [if_pos rfl]
        cases i with
        | zero => simp
        | succ i => simp only [Nat.add_lt_add_iff_right, true_and, ih]

/-- **A row reaches a column if it fits up to it.** -/
theorem lt_reach_iff {column : Nat} (hcolumn : column < types.length) :
    column < reach types row ↔ FitsThrough types column row := by
  unfold reach FitsThrough
  split
  · next hrow =>
    have hlt : column < (types.zip row).length := by
      rw [List.length_zip, hrow, Nat.min_self]
      exact hcolumn
    rw [lt_fitting_iff]
    exact and_congr_left' (iff_of_true hlt hrow)
  · next hrow => exact iff_of_false (Nat.not_lt_zero column) fun hfits => hrow hfits.1

theorem Fits.fitsThrough (h : Fits types row) (column : Nat) : FitsThrough types column row :=
  ⟨h.1, fun cell hcell => h.2 cell (List.mem_of_mem_take hcell)⟩

/-- A column takes its values of the rows that fit up to it. -/
theorem columnValues_eq_taken {column : Nat} (hcolumn : column < types.length)
    (rows : List (List Value)) : columnValues types rows column = taken types rows column := by
  unfold columnValues taken
  rw [List.filterMap_filter]
  refine List.filterMap_congr fun row _ => ?_
  simp only [lt_reach_iff hcolumn, decide_eq_true_eq]

/-! ### What the chunk holds -/

/-- If all rows fit, a column takes its value of each. -/
theorem taken_of_fits {column : Nat} (hcolumn : column < types.length)
    (hrows : ∀ row ∈ rows, Fits types row) :
    taken types rows column = rows.map fun row => row[column]?.getD .null := by
  rw [taken, List.filter_eq_self.2 fun row hrow =>
    decide_eq_true ((hrows row hrow).fitsThrough column)]
  refine List.filterMap_eq_map_iff_forall_eq_some.2 fun row hrow => ?_
  rw [List.getElem?_eq_getElem ((hrows row hrow).1 ▸ hcolumn)]
  rfl

/-- **Each column of the finished chunk shows the values it took.** -/
theorem Holds.showsAll_build (h : c.Holds types rows) {column : Nat} {block : Block}
    (hblock : c.build.blocks[column]? = some block) :
    block.ShowsAll (taken types rows column) := by
  rw [build, List.getElem?_map] at hblock
  obtain ⟨builder, hbuilder, rfl⟩ := Option.map_eq_some_iff.1 hblock
  have hcolumn : column < types.length := by
    rw [← h.types_eq, List.length_map]
    exact (List.getElem?_eq_some_iff.1 hbuilder).1
  rw [← columnValues_eq_taken hcolumn]
  exact (h.column_holds column builder hbuilder).showsAll_build

theorem Holds.types_build (h : c.Holds types rows) : c.build.blocks.map Block.type = types := by
  rw [← h.types_eq, build, List.map_map]
  exact List.map_congr_left fun builder _ => BlockBuilder.type_build builder

theorem firstCount_build (c : ChunkBuilder) :
    Chunk.firstCount c.build.blocks = c.build.positionCount := by
  obtain ⟨builders⟩ := c
  cases builders with
  | nil => rfl
  | cons builder builders => exact BlockBuilder.positionCount_build builder

end ChunkBuilder

namespace Chunk

/-- The values of all rows of a chunk, in order; a row that cannot be read says
why. -/
def rowValues (c : Chunk) : List (Result (List Value)) :=
  (List.range c.positionCount).map fun i => do (← c.row i).values

/-- A row has the values of its cells. -/
theorem values_of_cells {c : Chunk} {i : Nat} {row : List Value} (hi : i < c.positionCount)
    (hwidth : c.blocks.length = row.length)
    (hcells : ∀ (column : Nat) (block : Block) (value : Value), c.blocks[column]? = some block →
      row[column]? = some value → block.getValue i = .ok value) :
    (do (← c.row i).values) = .ok row := by
  have hat : c.row i = .ok ⟨c, i⟩ := by
    rw [Chunk.row, decide_eq_true hi]
    rfl
  -- Every block has a cell of the row, so the default never shows.
  have hcell : ∀ (column : Nat) (block : Block), c.blocks[column]? = some block →
      row[column]? = some ((block.getValue i).toOption.getD .null) ∧
        block.getValue i = .ok ((block.getValue i).toOption.getD .null) := by
    intro column block hblock
    obtain ⟨value, hvalue⟩ : ∃ value, row[column]? = some value :=
      ⟨_, List.getElem?_eq_getElem (hwidth ▸ (List.getElem?_eq_some_iff.1 hblock).1)⟩
    rw [hvalue, hcells column block value hblock hvalue]
    exact ⟨rfl, rfl⟩
  have hvalues : c.blocks.mapM (·.getValue i) =
      .ok (c.blocks.map fun block => (block.getValue i).toOption.getD .null) := by
    refine Result.mapM_eq_ok_map fun block hblock => ?_
    obtain ⟨column, hget⟩ := List.getElem?_of_mem hblock
    exact (hcell column block hget).2
  rw [hat]
  refine hvalues.trans (congrArg Except.ok (List.ext_getElem? fun column => ?_))
  rw [List.getElem?_map]
  cases hblock : c.blocks[column]? with
  | none =>
    rw [List.getElem?_eq_none_iff, hwidth] at hblock
    rw [List.getElem?_eq_none hblock]
    rfl
  | some block => exact (hcell column block hblock).1.symm

end Chunk

namespace ChunkBuilder

variable {c : ChunkBuilder} {types : List DataType} {rows : List (List Value)}

/-- **If all rows fit, they are the rows of the chunk.** -/
theorem Holds.rowValues_build (h : c.Holds types rows) (htypes : types ≠ [])
    (hrows : ∀ row ∈ rows, Fits types row) : c.build.rowValues = rows.map .ok := by
  have hwidth : c.build.blocks.length = types.length := by
    rw [← h.types_build, List.length_map]
  have hshows : ∀ (column : Nat) (block : Block), c.build.blocks[column]? = some block →
      block.ShowsAll (rows.map fun row => row[column]?.getD .null) := by
    intro column block hblock
    rw [← taken_of_fits (hwidth ▸ (List.getElem?_eq_some_iff.1 hblock).1) hrows]
    exact h.showsAll_build hblock
  -- The rows are counted by the first column, and so there has to be one.
  have hcount : c.build.positionCount = rows.length := by
    rw [← firstCount_build]
    cases hblocks : c.build.blocks with
    | nil =>
      rw [hblocks, eq_comm, List.length_nil, List.length_eq_zero_iff] at hwidth
      exact absurd hwidth htypes
    | cons block blocks =>
      have hfirst := (hshows 0 block (by rw [hblocks]; rfl)).positionCount_eq
      rwa [List.length_map] at hfirst
  refine List.ext_getElem? fun i => ?_
  rw [Chunk.rowValues, List.getElem?_map, List.getElem?_map]
  cases hrow : rows[i]? with
  | none =>
    rw [List.getElem?_eq_none_iff, ← hcount] at hrow
    rw [List.getElem?_eq_none (by rwa [List.length_range])]
    rfl
  | some row =>
    have hi : i < c.build.positionCount := by
      rw [hcount]
      exact (List.getElem?_eq_some_iff.1 hrow).1
    rw [List.getElem?_range hi]
    refine congrArg some (Chunk.values_of_cells hi ?_ ?_)
    · rw [hwidth, (hrows row (List.mem_of_getElem? hrow)).1]
    · intro column block value hblock hvalue
      refine ((hshows column block hblock).shows i value ?_).getValue_eq
      rw [List.getElem?_map, hrow, Option.map_some, hvalue]
      rfl

/-! ### All rows -/

/-- **What a chunk holds of the rows it was built from.**  Whatever rows were added
before, a row succeeds if it has a value for each column and each is a null or of the
type of its column; otherwise it fails for the first reason there is, and changes
nothing if it is of the wrong length.  After any rows each column of the finished
chunk shows, in order and bit for bit, its values of just those rows that fit up to
and including it, and the chunk is as long as its first column.  So if no row failed
and there are columns at all, the rows of the chunk are those that were added. -/
theorem columns_take_fitting_values {capacity : Nat} {start : ChunkBuilder}
    (hstart : withCapacity types capacity = .ok start) (rows : List (List Value)) :
    (∀ before row, (((start.run before).1.appendRow row).status = .ok () ↔ Fits types row) ∧
      (∀ failure, ((start.run before).1.appendRow row).status = .error failure ↔
        Refuses types row failure) ∧
      (row.length ≠ types.length →
        ((start.run before).1.appendRow row).state = (start.run before).1)) ∧
    (start.run rows).1.build.blocks.map Block.type = types ∧
    (∀ (column : Nat) (block : Block), (start.run rows).1.build.blocks[column]? = some block →
      block.ShowsAll (taken types rows column)) ∧
    (start.run rows).1.build.positionCount =
      Chunk.firstCount (start.run rows).1.build.blocks ∧
    (types ≠ [] → (∀ outcome ∈ (start.run rows).2, outcome.status = .ok ()) →
      (start.run rows).1.build.rowValues = rows.map .ok) := by
  have hblank := holds_of_withCapacity hstart
  have hholds : (start.run rows).1.Holds types rows := hblank.run rows
  refine ⟨?_, hholds.types_build, fun column block => hholds.showsAll_build,
    (firstCount_build _).symm, ?_⟩
  · intro before row
    have htypes := (hblank.run before).types_eq
    refine ⟨appendRow_eq_ok_iff htypes, fun failure => appendRow_eq_error_iff htypes, ?_⟩
    intro hrow
    rw [appendRow_of_length_ne htypes hrow]
    rfl
  · intro htypes hall
    exact hholds.rowValues_build htypes ((hblank.forall_run_ok_iff rows).1 hall)

/-- An integer and a string are expected.  A row without a string is turned away
whole, one with a second integer leaves its first, and a null fits everywhere. -/
theorem columns_take_fitting_values_pairs :
    ∃ start chunk ints strings, withCapacity [.int, .varchar] 4 = .ok start ∧
      (start.run [[.int 1, .string "a"], [.int 2], [.int 3, .int 3], [.null, .string ""]]).1.build =
        chunk ∧
      chunk.blocks = [ints, strings] ∧ chunk.positionCount = 3 ∧
      ints.ShowsAll [.int 1, .int 3, .null] ∧ strings.ShowsAll [.string "a", .string ""] := by
  obtain ⟨start, hstart⟩ : ∃ start, withCapacity [.int, .varchar] 4 = .ok start := ⟨_, rfl⟩
  obtain ⟨-, -, hshows, hcount, -⟩ := columns_take_fitting_values hstart
    [[.int 1, .string "a"], [.int 2], [.int 3, .int 3], [.null, .string ""]]
  cases hstart
  exact ⟨_, _, _, _, rfl, rfl, rfl, rfl, hshows 0 _ rfl, hshows 1 _ rfl⟩

end ChunkBuilder

end Columnar
