import Columnar.Hash.Folding
import Columnar.Proofs.ReadBack

/-!
# Rows that stop halfway

A chunk made of blocks is rectangular, for the blocks are compared first.  A chunk
builder compares nothing: a row hands its values to the columns from the left and
stops at the first that does not fit, and the columns before it keep theirs.  So
column `i` holds the values of those rows that came as far as `i`, and the finished
chunk is rectangular just in case no row stopped after its first column and before
its last.

## Main definitions

* `ChunkBuilder.run` — adding rows, past any that do not fit.
* `ChunkBuilder.reach` — how many columns take their value of a row.
* `ChunkBuilder.columnValues` — the values that a column takes of some rows.
* `ChunkBuilder.Holds` — the rows that were given to a chunk builder.
* `Chunk.Readable` — a chunk all of whose rows can be read.

## Main results

* `ChunkBuilder.Holds.appendRow`, `ChunkBuilder.Holds.run` — what the columns hold
  after one row, and after any.
* `Chunk.Built.readable_iff` — **the rows of a chunk can be read if it is
  rectangular.**
* `chunks_rectangular_unless_row_stops` — **when a chunk is rectangular.**
-/

namespace Columnar

/-! ### Chunks whose rows can be read -/

/-- Every row below the number of positions can be read: each of its cells and
their hash codes, its own hash code, and its values as a whole. -/
structure Chunk.Readable (c : Chunk) : Prop where
  exists_cells : ∀ i < c.positionCount, ∀ block ∈ c.blocks,
    (∃ value, block.getValue i = .ok value) ∧
      ∀ [PayloadHash], ∃ code, block.hashCode i = .ok code
  exists_hashCode : ∀ [PayloadHash], ∀ i < c.positionCount, ∃ code, c.hashCode i = .ok code
  exists_values : ∀ i < c.positionCount,
    ∃ row values, c.row i = .ok row ∧ row.values = .ok values

/-- A regular chunk can be read. -/
theorem Chunk.Regular.readable {c : Chunk} (h : c.Regular) : c.Readable := by
  have hvalue : ∀ i < c.positionCount, ∀ block ∈ c.blocks,
      ∃ value, block.getValue i = .ok value := by
    intro i hi block hblock
    refine (h.built.built_of_mem block hblock).exists_getValue ?_
    rw [h.rectangular block hblock]
    exact hi
  refine ⟨fun i hi block hblock => ?_, fun i hi => ?_, fun i hi => ?_⟩
  · obtain ⟨value, hgot⟩ := hvalue i hi block hblock
    exact ⟨⟨value, hgot⟩, _, Block.hashCode_of_key (Result.map_eq_ok_iff.2 ⟨value, hgot, rfl⟩)⟩
  · exact ⟨_, RegularRow.hashCode_eq ⟨⟨c, i⟩, h, hi⟩⟩
  · have hrow : c.row i = .ok ⟨c, i⟩ := by
      rw [row, decide_eq_true hi]
      rfl
    have hvalues : ∀ block ∈ c.blocks,
        block.getValue i = .ok ((block.getValue i).toOption.getD .null) := by
      intro block hblock
      obtain ⟨value, hgot⟩ := hvalue i hi block hblock
      rw [hgot]
      rfl
    exact ⟨⟨c, i⟩, _, hrow, Result.mapM_eq_ok_map hvalues⟩

/-- **The rows of a finished chunk can be read just in case it is rectangular.**
In any other the last row lacks a cell. -/
theorem Chunk.Built.readable_iff {c : Chunk} (h : c.Built) : c.Readable ↔ c.Rectangular := by
  refine ⟨fun hread block hblock => ?_, fun hrect => Regular.readable ⟨h, hrect⟩⟩
  have hle := h.bounded block hblock
  refine Nat.le_antisymm hle (Nat.le_of_not_lt fun hlt => ?_)
  obtain ⟨hvalue, -⟩ := hread.exists_cells _ hlt block hblock
  have hintact := (h.built_of_mem block hblock).intact
  exact Nat.lt_irrefl _ (hintact.exists_getValue_iff.1 hvalue)

namespace ChunkBuilder

/-! ### Rows one after another -/

/-- What rows do to a chunk builder, whether they fit or not. -/
def run (c : ChunkBuilder) (rows : List (List Value)) :
    ChunkBuilder × List (Outcome ChunkBuilder) :=
  Outcome.runAll appendRow c rows

/-- How many of the leading columns take their value. -/
def fitting : List DataType → List Value → Nat
  | type :: types, value :: values => if type.accepts value then fitting types values + 1 else 0
  | _, _ => 0

/-- How many columns take their value of a row.  A row that is too short or too
long is turned away whole. -/
def reach (types : List DataType) (row : List Value) : Nat :=
  if row.length = types.length then fitting types row else 0

/-- The row stops after its first column and before its last. -/
def StopsHalfway (types : List DataType) (row : List Value) : Prop :=
  0 < reach types row ∧ reach types row < types.length

instance (types : List DataType) (row : List Value) : Decidable (StopsHalfway types row) :=
  inferInstanceAs (Decidable (_ ∧ _))

/-- The values that a column takes of some rows: those of the rows that come as
far. -/
def columnValues (types : List DataType) (rows : List (List Value)) (column : Nat) : List Value :=
  rows.filterMap fun row => if column < reach types row then row[column]? else none

/-- The columns are of the types, and each holds what it takes of the rows. -/
structure Holds (c : ChunkBuilder) (types : List DataType) (rows : List (List Value)) : Prop where
  types_eq : c.builders.map BlockBuilder.type = types
  column_holds : ∀ i (builder : BlockBuilder), c.builders[i]? = some builder →
    builder.Holds (columnValues types rows i)

variable {c : ChunkBuilder} {types : List DataType} {rows : List (List Value)} {row : List Value}

theorem fitting_le_length : ∀ (types : List DataType) (values : List Value),
    fitting types values ≤ values.length := by
  intro types
  induction types with
  | nil => intro values; exact Nat.zero_le _
  | cons type types ih =>
    intro values
    cases values with
    | nil => exact Nat.le_refl _
    | cons value values =>
      rw [fitting, List.length_cons]
      have hrest := ih values
      split <;> omega

/-- A row that comes as far as a column has a value for it. -/
theorem exists_value_of_lt_reach {i : Nat} (h : i < reach types row) :
    ∃ value, row[i]? = some value := by
  unfold reach at h
  split at h
  · exact ⟨_, List.getElem?_eq_getElem (Nat.lt_of_lt_of_le h (fitting_le_length types row))⟩
  · exact absurd h (Nat.not_lt_zero i)

/-- A column takes as many values as there are rows that come as far. -/
theorem length_columnValues (types : List DataType) (rows : List (List Value)) (i : Nat) :
    (columnValues types rows i).length = rows.countP fun row => decide (i < reach types row) := by
  unfold columnValues
  rw [List.length_filterMap_eq_countP]
  refine congrArg (List.countP · rows) (funext fun row => ?_)
  by_cases hi : i < reach types row
  · obtain ⟨value, hvalue⟩ := exists_value_of_lt_reach hi
    rw [if_pos hi, hvalue, decide_eq_true hi]
    rfl
  · rw [if_neg hi, decide_eq_false hi]
    rfl

/-- Each column that a row reaches takes its value, and the others are left. -/
theorem getElem?_appendCells : ∀ (builders : List BlockBuilder) (values : List Value) (i : Nat),
    (appendCells builders values).state[i]? = builders[i]?.map fun builder =>
      if i < fitting (builders.map BlockBuilder.type) values then
        builder.push (values[i]?.getD .null)
      else builder := by
  intro builders
  induction builders with
  | nil => intro values i; rfl
  | cons builder builders ih =>
    intro values i
    cases values with
    | nil =>
      simp only [List.map_cons, fitting, Nat.not_lt_zero, if_false, Option.map_id']
      rfl
    | cons value values =>
      rw [List.map_cons, fitting, ← BlockBuilder.accepts_eq]
      cases hfits : builder.accepts value with
      | false =>
        -- The row stops here, and this builder and all after it stay as they are.
        have hcheck : builder.check value = .error (.misused (.valueType value builder.type)) :=
          Result.require_eq_error_iff.2 ⟨hfits, rfl⟩
        rw [appendCells, hcheck]
        simp only [Bool.false_eq_true, Nat.not_lt_zero, if_false, Option.map_id']
        rfl
      | true =>
        have hcheck : builder.check value = .ok () := Result.require_eq_ok_iff.2 hfits
        rw [appendCells, hcheck, if_pos rfl]
        cases i with
        | zero => rfl
        | succ i =>
          simp only [Outcome.state_map, List.getElem?_cons_succ, Nat.add_lt_add_iff_right]
          exact ih values i

/-- Each column that a row reaches takes its value, and the others are left. -/
theorem getElem?_appendRow (h : c.builders.map BlockBuilder.type = types) (row : List Value)
    (i : Nat) : (c.appendRow row).state.builders[i]? = c.builders[i]?.map fun builder =>
      if i < reach types row then builder.push (row[i]?.getD .null) else builder := by
  have hlength : c.builders.length = types.length := by rw [← h, List.length_map]
  unfold appendRow reach
  rw [hlength]
  split
  · rw [← h]
    exact getElem?_appendCells c.builders row i
  · simp only [Nat.not_lt_zero, if_false, Option.map_id']
    rfl

/-- A value that a row hands to a column fits it. -/
theorem accepts_of_lt_fitting : ∀ {types : List DataType} {values : List Value} {i : Nat}
    {type : DataType} {value : Value}, i < fitting types values → types[i]? = some type →
      values[i]? = some value → type.accepts value = true := by
  intro types
  induction types with
  | nil => intro values i type value hi; cases values <;> exact absurd hi (Nat.not_lt_zero i)
  | cons first types ih =>
    intro values i type value hi htype hvalue
    cases values with
    | nil => cases hvalue
    | cons head values =>
      rw [fitting] at hi
      split at hi
      · next hfits =>
        cases i with
        | zero =>
          cases htype
          cases hvalue
          exact hfits
        | succ i => exact ih (Nat.lt_of_succ_lt_succ hi) htype hvalue
      · exact absurd hi (Nat.not_lt_zero i)

theorem accepts_of_lt_reach {i : Nat} {type : DataType} {value : Value}
    (h : i < reach types row) (htype : types[i]? = some type) (hvalue : row[i]? = some value) :
    type.accepts value = true := by
  unfold reach at h
  split at h
  · exact accepts_of_lt_fitting h htype hvalue
  · exact absurd h (Nat.not_lt_zero i)

/-- **A row is held by the columns it reaches**, whether it fits as a whole or
not. -/
theorem Holds.appendRow (h : c.Holds types rows) (row : List Value) :
    (c.appendRow row).state.Holds types (rows ++ [row]) := by
  have hcolumns := getElem?_appendRow h.types_eq row
  constructor
  · -- No builder changes its type.
    refine List.ext_getElem? fun i => ?_
    rw [List.getElem?_map, hcolumns, ← h.types_eq, List.getElem?_map, Option.map_map]
    refine congrArg (Option.map · c.builders[i]?) (funext fun builder => ?_)
    simp only [Function.comp_apply]
    split
    · rw [BlockBuilder.type_push]
    · rfl
  · intro i after hafter
    rw [hcolumns] at hafter
    obtain ⟨builder, hbuilder, rfl⟩ := Option.map_eq_some_iff.1 hafter
    have hbefore := h.column_holds i builder hbuilder
    rw [columnValues, List.filterMap_append]
    by_cases hi : i < reach types row
    · obtain ⟨value, hvalue⟩ := exists_value_of_lt_reach hi
      have htype : types[i]? = some builder.type := by
        rw [← h.types_eq, List.getElem?_map, hbuilder]
        rfl
      have hfits := accepts_of_lt_reach hi htype hvalue
      rw [← BlockBuilder.accepts_eq] at hfits
      rw [if_pos hi, List.filterMap_cons, if_pos hi, hvalue]
      exact hbefore.push hfits
    · rw [if_neg hi, List.filterMap_cons, if_neg hi]
      rwa [List.filterMap_nil, List.append_nil]

/-- **After any rows each column holds what it takes of them.** -/
theorem Holds.run : ∀ (added : List (List Value)) {c : ChunkBuilder} {rows : List (List Value)},
    c.Holds types rows → (c.run added).1.Holds types (rows ++ added) := by
  intro added
  induction added with
  | nil => intro c rows h; rwa [List.append_nil]
  | cons row rest ih =>
    intro c rows h
    have hrest := ih (h.appendRow row)
    rwa [List.append_assoc] at hrest

theorem Made.run : ∀ (rows : List (List Value)) {c : ChunkBuilder},
    c.Made → (c.run rows).1.Made := by
  intro rows
  induction rows with
  | nil => intro c h; exact h
  | cons row rest ih => intro c h; exact ih (.appendRow row h)

/-- A builder that can have the room holds no rows yet. -/
theorem holds_of_withCapacity {capacity : Nat} (h : withCapacity types capacity = .ok c) :
    c.Holds types [] := by
  obtain ⟨builders, hbuilders, rfl⟩ := Result.map_eq_ok_iff.1 h
  obtain rfl := Result.eq_map_of_mapM BlockBuilder.eq_blank_of_withCapacity hbuilders
  constructor
  · rw [List.map_map]
    exact List.map_id'' (fun type => BlockBuilder.type_blank type capacity) types
  · intro i builder hbuilder
    rw [List.getElem?_map] at hbuilder
    obtain ⟨type, -, rfl⟩ := Option.map_eq_some_iff.1 hbuilder
    exact BlockBuilder.holds_blank type capacity

/-! ### When the finished chunk is rectangular -/

/-- The finished chunk has as many positions as rows have reached a column. -/
theorem Holds.positionCount_build (h : c.Holds types rows) (htypes : 0 < types.length) :
    c.build.positionCount = rows.countP fun row => decide (0 < reach types row) := by
  rw [← length_columnValues]
  show c.positionCount = _
  obtain ⟨builders⟩ := c
  cases builders with
  | nil =>
    rw [← h.types_eq] at htypes
    exact absurd htypes (Nat.lt_irrefl 0)
  | cons builder builders => exact (h.column_holds 0 builder rfl).positionCount_eq

/-- Counting by a condition and by a weaker one comes to the same only if no
element tells them apart. -/
theorem forall_of_countP_eq {α : Type} {p q : α → Bool} {xs : List α}
    (hpq : ∀ x ∈ xs, p x = true → q x = true) (hcount : xs.countP p = xs.countP q) :
    ∀ x ∈ xs, q x = true → p x = true := by
  -- The stronger condition holds of all that are kept by the weaker one.
  have hkept : (xs.filter q).countP p = (xs.filter q).length := by
    rw [List.countP_filter, ← List.countP_eq_length_filter, ← hcount]
    refine List.countP_congr fun x hx => ?_
    rw [Bool.and_eq_true]
    exact ⟨And.left, fun hp => ⟨hp, hpq x hx hp⟩⟩
  exact fun x hx hq => List.countP_eq_length.1 hkept x (List.mem_filter.2 ⟨hx, hq⟩)

/-- The finished chunk is rectangular if as many rows reach every column as reach
the first. -/
theorem Holds.rectangular_iff_countP (h : c.Holds types rows) :
    c.build.Rectangular ↔ ∀ i < types.length,
      rows.countP (fun row => decide (i < reach types row)) =
        rows.countP fun row => decide (0 < reach types row) := by
  have hwidth : c.builders.length = types.length := by rw [← h.types_eq, List.length_map]
  -- A column has a cell for every row that reaches it.
  have hcount : ∀ i (builder : BlockBuilder), c.builders[i]? = some builder →
      builder.build.positionCount = rows.countP fun row => decide (i < reach types row) := by
    intro i builder hbuilder
    rw [BlockBuilder.positionCount_build, (h.column_holds i builder hbuilder).positionCount_eq,
      length_columnValues]
  constructor
  · intro hrect i hi
    obtain ⟨builder, hbuilder⟩ : ∃ builder, c.builders[i]? = some builder :=
      ⟨_, List.getElem?_eq_getElem (hwidth.symm ▸ hi)⟩
    rw [← hcount i _ hbuilder, ← h.positionCount_build (Nat.zero_lt_of_lt hi)]
    exact hrect _ (List.mem_map_of_mem (List.mem_of_getElem? hbuilder))
  · intro hcounts block hblock
    obtain ⟨builder, hmem, rfl⟩ := List.mem_map.1 hblock
    obtain ⟨i, hi, hget⟩ := List.mem_iff_getElem.1 hmem
    have hlt : i < types.length := hwidth ▸ hi
    have hbuilder : c.builders[i]? = some builder := List.getElem?_eq_some_iff.2 ⟨hi, hget⟩
    rw [hcount i builder hbuilder, hcounts i hlt, h.positionCount_build (Nat.zero_lt_of_lt hlt)]

/-- **The finished chunk is rectangular just in case no row stopped halfway.** -/
theorem Holds.rectangular_iff (h : c.Holds types rows) :
    c.build.Rectangular ↔ ∀ row ∈ rows, ¬ StopsHalfway types row := by
  rw [h.rectangular_iff_countP]
  constructor
  · rintro hcounts row hrow ⟨hpos, hlt⟩
    -- The first column that the row does not reach would be as long as the first of all.
    have hreach := forall_of_countP_eq (fun row _ hi => decide_eq_true
      (Nat.zero_lt_of_lt (of_decide_eq_true hi))) (hcounts _ hlt) row hrow (decide_eq_true hpos)
    exact Nat.lt_irrefl _ (of_decide_eq_true hreach)
  · intro hstops i hi
    refine List.countP_congr fun row hrow => ?_
    rw [decide_eq_true_iff, decide_eq_true_iff]
    refine ⟨Nat.zero_lt_of_lt, fun hpos => ?_⟩
    have hall : types.length ≤ reach types row :=
      Nat.le_of_not_lt fun hlt => hstops row hrow ⟨hpos, hlt⟩
    exact Nat.lt_of_lt_of_le hi hall

end ChunkBuilder

/-! ### All chunks -/

/-- **When a chunk is rectangular.**  A chunk that was built row by row, also past
rows that did not fit, is rectangular just in case no row stopped after its first
column and before its last; otherwise some row cannot be read.  A chunk made of
finished blocks always is, and all its rows can be read. -/
theorem chunks_rectangular_unless_row_stops {types : List DataType} {capacity : Nat}
    {start : ChunkBuilder} (hstart : ChunkBuilder.withCapacity types capacity = .ok start)
    (rows : List (List Value)) :
    ((start.run rows).1.build.Rectangular ↔
      ∀ row ∈ rows, ¬ ChunkBuilder.StopsHalfway types row) ∧
    ((start.run rows).1.build.Readable ↔ (start.run rows).1.build.Rectangular) ∧
    ∀ blocks c, (∀ block ∈ blocks, block.Built) → Chunk.ofBlocks blocks = .ok c →
      c.Rectangular ∧ c.Readable := by
  have hholds := (ChunkBuilder.holds_of_withCapacity hstart).run rows
  rw [List.nil_append] at hholds
  have hmade : start.Made := .withCapacity hstart
  refine ⟨hholds.rectangular_iff, (Chunk.Built.build (hmade.run rows)).readable_iff, ?_⟩
  intro blocks c hblocks hc
  have hregular := Chunk.regular_ofBlocks hblocks hc
  exact ⟨hregular.rectangular, hregular.readable⟩

/-- Two integers are expected.  Rows that stop at once or are too short do no harm,
but one that stops at its second value makes a row that cannot be read. -/
theorem chunks_rectangular_unless_row_stops_pairs :
    ∃ start, ChunkBuilder.withCapacity [.int, .int] 4 = .ok start ∧
      (start.run [[.string "y", .int 4], [.int 2], [.int 2, .null]]).1.build.Readable ∧
      ¬ (start.run [[.int 1, .string "x"], [.int 2, .int 3]]).1.build.Readable := by
  obtain ⟨start, hstart⟩ : ∃ start, ChunkBuilder.withCapacity [.int, .int] 4 = .ok start :=
    ⟨_, rfl⟩
  refine ⟨start, hstart, ?_, ?_⟩
  · obtain ⟨hrect, hread, -⟩ := chunks_rectangular_unless_row_stops hstart
      [[.string "y", .int 4], [.int 2], [.int 2, .null]]
    exact hread.2 (hrect.2 (by decide))
  · obtain ⟨hrect, hread, -⟩ := chunks_rectangular_unless_row_stops hstart
      [[.int 1, .string "x"], [.int 2, .int 3]]
    exact fun h => absurd (hrect.1 (hread.1 h)) (by decide)

/-- Not every chunk that comes about is rectangular.  A row of an integer and a
string stops halfway where two integers are expected: the first column keeps its
value, the second has none, and the one row of the chunk cannot be read. -/
theorem stopped_row_leaves_short_column :
    ∃ c : Chunk, ((ChunkBuilder.ofTypes [.int, .int]).run [[.int 1, .string "x"]]).1.build = c ∧
      c.Built ∧ c.positionCount = 1 ∧ c.blocks.map Block.positionCount = [1, 0] ∧
      ¬ c.Rectangular ∧ c.hashCode 0 = .error .outOfBounds := by
  refine ⟨_, rfl, .build ((ChunkBuilder.made_ofTypes _).run _), rfl, rfl, fun hrect => ?_, rfl⟩
  have hshort := hrect _ (List.mem_cons_of_mem _ List.mem_cons_self)
  exact absurd hshort (by decide)

end Columnar
