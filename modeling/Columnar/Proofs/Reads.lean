import Columnar.Hash.Folding
import Columnar.Proofs.Address
import Columnar.Proofs.Cells
import Columnar.Proofs.Reachable
import Columnar.Proofs.Routing
import Columnar.Proofs.RowSequence

/-!
# Reads by position

Reading an index by position is reading its row sequence: the chunk that holds
a row, and any empty chunks around it, do not show.  A row in turn is its list
of cells, so that two indices with the same cells in the same order cannot be
told apart by any read, however the rows are cut into chunks.

## Main definitions

* `Row.cells` — what a row holds.
* `RowIndex.ReadsAs` — the reads of an index are those of a list of rows.
* `RowIndex.ReadsAlike` — two indices answer all reads alike.

## Main results

* `RowIndex.readsAs_rowSequence` — the reads of an index are those of its rows.
* `RowIndex.reads_follow_rows` — **locations and reads are settled by the sequence
  of rows.**
-/

namespace Columnar

/-! ### Rows as lists of cells -/

namespace Row

/-- The cells of a row, in the order of the columns. -/
def cells (r : Row) : List Cell := r.chunk.blocks.map (·.cellAt r.position)

def isNull (r : Row) (column : Nat) : Result Bool := do
  (← r.chunk.block column).isNull r.position

/-- A read of one cell of a row, given what it makes of any cell. -/
theorem readBlock_eq {α : Type} (r : Row) (column : Nat) {read : Block → Nat → Result α}
    {readCell : Cell → Result α} (hread : ∀ b i, read b i = readCell (b.cellAt i)) :
    (do read (← r.chunk.block column) r.position : Result α) =
      (do readCell (← Result.nth r.cells column)) := by
  unfold Chunk.block Result.nth cells
  rw [List.getElem?_map]
  cases r.chunk.blocks[column]? with
  | none => rfl
  | some b => exact hread b r.position

theorem getValue_eq (r : Row) (column : Nat) :
    r.getValue column = (do (← Result.nth r.cells column).value) :=
  r.readBlock_eq column fun _ _ => rfl

theorem isNull_eq (r : Row) (column : Nat) :
    r.isNull column = (do (← Result.nth r.cells column).isNull) :=
  r.readBlock_eq column Block.isNull_eq

/-- The values of a row are its cells, read column by column. -/
theorem values_eq_getValue (r : Row) : r.values = (List.range r.columnCount).mapM r.getValue :=
  Result.mapM_eq_mapM_range

theorem mapM_getValue_eq (r : Row) :
    (List.range r.columnCount).mapM r.getValue = r.cells.mapM Cell.value := by
  rw [← values_eq_getValue, cells, List.mapM_map]
  rfl

theorem hashCode_eq [PayloadHash] (r : Row) :
    r.hashCode = r.cells.foldlM (fun row cell => Hash.combine row <$> cell.hashCode) 0 := by
  rw [cells, List.foldlM_map]
  show r.chunk.blocks.foldlM _ _ = _
  congr
  funext row block
  rw [Block.hashCode_eq]

/-- Comparing blocks one by one is comparing the cells one by one. -/
theorem allM_equals (i j : Nat) : ∀ pairs : List (Block × Block),
    (pairs.allM fun (a, b) => a.equals i b j) =
      (pairs.map fun (a, b) => (a.cellAt i, b.cellAt j)).allM fun (c, d) => c.equals d := by
  intro pairs
  induction pairs with
  | nil => rfl
  | cons pair rest ih =>
    obtain ⟨a, b⟩ := pair
    rw [List.map_cons, List.allM_cons, List.allM_cons, ih]
    dsimp only
    rw [Block.equals_eq]

theorem equals_eq (r s : Row) :
    r.equals s = if r.cells.length = s.cells.length then
      (r.cells.zip s.cells).allM fun (c, d) => c.equals d else .ok false := by
  unfold Row.equals Chunk.equals
  rw [allM_equals, cells, cells, List.zip_map, List.length_map, List.length_map]
  rfl

end Row

namespace RowIndex

variable {x y : RowIndex}

/-! ### Reading an index as its rows -/

/-- The values of the row at a position. -/
def valuesAt (x : RowIndex) (position : Nat) : Result (List Value) := do
  (← x.row position).values

/-- The values of the row at the address of a position. -/
def addressedValues (x : RowIndex) (position : Nat) : Result (List Value) := do
  let (_, row) ← x.resolve (← x.address position)
  row.values

/-- The reads of an index at a position are those of the row of a list that
stands there. -/
structure ReadsAs (x : RowIndex) (rows : List Row) : Prop where
  /-- There is a row for each position. -/
  length_eq : rows.length = x.positionCount
  getValue_eq : ∀ {p row} column, rows[p]? = some row → x.getValue column p = row.getValue column
  isNull_eq : ∀ {p row} column, rows[p]? = some row → x.isNull column p = row.isNull column
  row_eq : ∀ {p row}, rows[p]? = some row → x.row p = .ok row
  /-- The values of a row are those of its cells, column by column. -/
  valuesAt_eq : ∀ {p row}, rows[p]? = some row →
    x.valuesAt p = (List.range row.columnCount).mapM row.getValue
  /-- The address of a position leads to the row. -/
  resolve_eq : ∀ {p row}, rows[p]? = some row →
    ∃ a shared, x.address p = .ok a ∧ x.resolve a = .ok (shared, row)
  addressedValues_eq : ∀ {p row}, rows[p]? = some row →
    x.addressedValues p = (List.range row.columnCount).mapM row.getValue
  hashCode_eq : ∀ [PayloadHash] {p row}, rows[p]? = some row → x.hashCode p = row.hashCode
  equals_eq : ∀ {p q row other}, rows[p]? = some row → rows[q]? = some other →
    x.equals p q = row.equals other

/-- A row of the sequence is the row of a chunk at a location. -/
theorem exists_location_of_row (hx : x.WellFormed) {p : Nat} {row : Row}
    (h : x.rowSequence[p]? = some row) :
    ∃ l shared, x.locate p = .ok l ∧ x.chunk l.chunkId = .ok shared ∧
      l.offset < shared.chunk.positionCount ∧ row = ⟨shared.chunk, l.offset⟩ := by
  have hp : p < x.positionCount := by
    rw [← length_rowSequence hx]
    exact (List.getElem?_eq_some_iff.1 h).1
  obtain ⟨l, hl⟩ := (exists_locate_iff hx).2 hp
  obtain ⟨shared, hshared, hoffset⟩ := exists_chunk_of_locate hx hl
  rw [getElem?_rowSequence hx hl hshared] at h
  exact ⟨l, shared, hl, hshared, hoffset, (Option.some.inj h).symm⟩

theorem row_of_rowSequence (hx : x.WellFormed) {p : Nat} {row : Row}
    (h : x.rowSequence[p]? = some row) : x.row p = .ok row := by
  obtain ⟨l, shared, hl, hshared, hoffset, rfl⟩ := exists_location_of_row hx h
  rw [RowIndex.row_eq hl hshared, Chunk.row, decide_eq_true hoffset]
  rfl

/-- The address of a position leads to the row of the sequence. -/
theorem resolve_of_rowSequence (hx : x.WellFormed) {p : Nat} {row : Row}
    (h : x.rowSequence[p]? = some row) :
    ∃ a shared, x.address p = .ok a ∧ x.resolve a = .ok (shared, row) := by
  obtain ⟨l, shared, hl, hshared, hoffset, rfl⟩ := exists_location_of_row hx h
  obtain ⟨a, ha, hchunkId, hplace⟩ := exists_address hx hl
  refine ⟨a, shared, ha, ?_⟩
  unfold resolve
  simp only [bind, Except.bind, hchunkId, hplace, hshared, Chunk.row, decide_eq_true hoffset]
  rfl

/-- **The reads of an index are those of its rows.** -/
theorem readsAs_rowSequence (hx : x.WellFormed) : x.ReadsAs x.rowSequence where
  length_eq := length_rowSequence hx
  getValue_eq := by
    -- Every read goes to the chunk that the row of the sequence is in.
    intro p row column h
    obtain ⟨l, shared, hl, hshared, -, rfl⟩ := exists_location_of_row hx h
    exact readCell_eq hl hshared Block.getValue column
  isNull_eq := by
    intro p row column h
    obtain ⟨l, shared, hl, hshared, -, rfl⟩ := exists_location_of_row hx h
    exact readCell_eq hl hshared Block.isNull column
  row_eq := row_of_rowSequence hx
  valuesAt_eq := by
    intro p row h
    rw [valuesAt, row_of_rowSequence hx h]
    exact row.values_eq_getValue
  resolve_eq := resolve_of_rowSequence hx
  addressedValues_eq := by
    intro p row h
    obtain ⟨a, shared, ha, hresolve⟩ := resolve_of_rowSequence hx h
    rw [addressedValues, ha]
    simp only [bind, Except.bind, hresolve]
    exact row.values_eq_getValue
  hashCode_eq := by
    intro _ p row h
    obtain ⟨l, shared, hl, hshared, -, rfl⟩ := exists_location_of_row hx h
    exact RowIndex.hashCode_eq hl hshared
  equals_eq := by
    intro p q row other h hother
    obtain ⟨l, shared, hl, hshared, -, rfl⟩ := exists_location_of_row hx h
    obtain ⟨m, owner, hm, howner, -, rfl⟩ := exists_location_of_row hx hother
    exact RowIndex.equals_eq hl hshared hm howner

/-! ### Indices that cannot be told apart -/

/-- The two indices answer all reads by position alike, with the same failures. -/
structure ReadsAlike (x y : RowIndex) : Prop where
  positionCount_eq : x.positionCount = y.positionCount
  getValue_eq : ∀ column p, x.getValue column p = y.getValue column p
  isNull_eq : ∀ column p, x.isNull column p = y.isNull column p
  valuesAt_eq : ∀ p, x.valuesAt p = y.valuesAt p
  addressedValues_eq : ∀ p, x.addressedValues p = y.addressedValues p
  hashCode_eq : ∀ [PayloadHash] p, x.hashCode p = y.hashCode p
  equals_eq : ∀ p q, x.equals p q = y.equals p q

/-- The failure of all reads at a position past the end. -/
def pastEnd (x : RowIndex) (position : Nat) : Failure :=
  .misused (.positionOutOfRange position x.positionCount)

section PastEnd

variable {p : Nat} (hp : x.positionCount ≤ p)

include hp

theorem readCell_of_le {α : Type} (read : Block → Nat → Result α) (column : Nat) :
    x.readCell read column p = .error (x.pastEnd p) := by
  unfold readCell cell
  rw [locate_of_le hp]
  rfl

theorem valuesAt_of_le : x.valuesAt p = .error (x.pastEnd p) := by
  unfold valuesAt row
  rw [locate_of_le hp]
  rfl

theorem addressedValues_of_le : x.addressedValues p = .error (x.pastEnd p) := by
  unfold addressedValues address
  rw [locate_of_le hp]
  rfl

theorem hashCode_of_le [PayloadHash] : x.hashCode p = .error (x.pastEnd p) := by
  unfold hashCode
  rw [locate_of_le hp]
  rfl

theorem equals_of_left_le (q : Nat) : x.equals p q = .error (x.pastEnd p) := by
  unfold equals
  rw [locate_of_le hp]
  rfl

theorem equals_of_right_le {q : Nat} {l : Location} (hl : x.locate q = .ok l) :
    x.equals q p = .error (x.pastEnd p) := by
  unfold equals
  rw [hl, locate_of_le hp]
  rfl

end PastEnd

/-! ### Indices with the same cells -/

section SameCells

variable (hx : x.WellFormed) (hy : y.WellFormed)
  (hcells : x.rowSequence.map Row.cells = y.rowSequence.map Row.cells)

include hx hy hcells

theorem positionCount_eq_of_cells : x.positionCount = y.positionCount := by
  have hlength := congrArg List.length hcells
  rwa [List.length_map, List.length_map, length_rowSequence hx, length_rowSequence hy] at hlength

theorem pastEnd_eq_of_cells : x.pastEnd = y.pastEnd := by
  funext p
  rw [pastEnd, pastEnd, positionCount_eq_of_cells hx hy hcells]

omit hy in
/-- At each position stand rows with the same cells. -/
theorem exists_rows_of_cells {p : Nat} (hp : p < x.positionCount) :
    ∃ row other, x.rowSequence[p]? = some row ∧ y.rowSequence[p]? = some other ∧
      row.cells = other.cells := by
  obtain ⟨row, hrow⟩ : ∃ row, x.rowSequence[p]? = some row :=
    ⟨_, List.getElem?_eq_getElem (by rw [length_rowSequence hx]; exact hp)⟩
  have hlookup := congrArg (·[p]?) hcells
  simp only [List.getElem?_map, hrow, Option.map_some] at hlookup
  obtain ⟨other, hother, heq⟩ := Option.map_eq_some_iff.1 hlookup.symm
  exact ⟨row, other, hrow, hother, heq.symm⟩

/-- A read that depends on the cells of the row at a position, and fails past the
end, has the same answer in both indices. -/
theorem read_eq_of_cells {β : Type} (read : RowIndex → Nat → Result β)
    (ofCells : List Cell → Result β)
    (hrow : ∀ {z : RowIndex} {p row}, z.WellFormed → z.rowSequence[p]? = some row →
      read z p = ofCells row.cells)
    (hend : ∀ {z : RowIndex} {p}, z.positionCount ≤ p → read z p = .error (z.pastEnd p))
    (p : Nat) : read x p = read y p := by
  by_cases hp : p < x.positionCount
  · obtain ⟨row, other, hleft, hright, heq⟩ := exists_rows_of_cells hx hcells hp
    rw [hrow hx hleft, hrow hy hright, heq]
  · have hle : x.positionCount ≤ p := Nat.le_of_not_lt hp
    have hle' : y.positionCount ≤ p := positionCount_eq_of_cells hx hy hcells ▸ hle
    rw [hend hle, hend hle', pastEnd_eq_of_cells hx hy hcells]

theorem equals_eq_of_cells (p q : Nat) : x.equals p q = y.equals p q := by
  have hcount := positionCount_eq_of_cells hx hy hcells
  have hend := pastEnd_eq_of_cells hx hy hcells
  by_cases hp : p < x.positionCount
  · by_cases hq : q < x.positionCount
    · obtain ⟨row, other, hrow, hother, heq⟩ := exists_rows_of_cells hx hcells hp
      obtain ⟨row', other', hrow', hother', heq'⟩ := exists_rows_of_cells hx hcells hq
      rw [(readsAs_rowSequence hx).equals_eq hrow hrow',
        (readsAs_rowSequence hy).equals_eq hother hother', Row.equals_eq, Row.equals_eq, heq, heq']
    · -- The first position is located before the second one is refused.
      obtain ⟨l, hl⟩ := (exists_locate_iff hx).2 hp
      obtain ⟨m, hm⟩ := (exists_locate_iff hy).2 (hcount ▸ hp)
      have hle : x.positionCount ≤ q := Nat.le_of_not_lt hq
      rw [equals_of_right_le hle hl, equals_of_right_le (hcount ▸ hle) hm, hend]
  · have hle : x.positionCount ≤ p := Nat.le_of_not_lt hp
    rw [equals_of_left_le hle, equals_of_left_le (hcount ▸ hle), hend]

/-- **Indices with the same cells answer all reads alike**, however their rows are
cut into chunks. -/
theorem readsAlike_of_cells : x.ReadsAlike y where
  positionCount_eq := positionCount_eq_of_cells hx hy hcells
  getValue_eq := by
    -- A read of the row is a function of its cells, and past the end all reads fail alike.
    intro column
    refine read_eq_of_cells hx hy hcells (·.getValue column)
      (fun cells => do (← Result.nth cells column).value) ?_
      fun hle => readCell_of_le hle Block.getValue column
    intro z p row hz hrow
    exact ((readsAs_rowSequence hz).getValue_eq column hrow).trans (row.getValue_eq column)
  isNull_eq := by
    intro column
    refine read_eq_of_cells hx hy hcells (·.isNull column)
      (fun cells => do (← Result.nth cells column).isNull) ?_
      fun hle => readCell_of_le hle Block.isNull column
    intro z p row hz hrow
    exact ((readsAs_rowSequence hz).isNull_eq column hrow).trans (row.isNull_eq column)
  valuesAt_eq := by
    refine read_eq_of_cells hx hy hcells valuesAt (·.mapM Cell.value) ?_ valuesAt_of_le
    intro z p row hz hrow
    exact ((readsAs_rowSequence hz).valuesAt_eq hrow).trans row.mapM_getValue_eq
  addressedValues_eq := by
    refine read_eq_of_cells hx hy hcells addressedValues (·.mapM Cell.value) ?_
      addressedValues_of_le
    intro z p row hz hrow
    exact ((readsAs_rowSequence hz).addressedValues_eq hrow).trans row.mapM_getValue_eq
  hashCode_eq := by
    intro _
    refine read_eq_of_cells hx hy hcells hashCode
      (·.foldlM (fun row cell => Hash.combine row <$> cell.hashCode) 0) ?_
      fun hle => hashCode_of_le hle
    intro z p row hz hrow
    exact ((readsAs_rowSequence hz).hashCode_eq hrow).trans row.hashCode_eq
  equals_eq := equals_eq_of_cells hx hy hcells

end SameCells

end RowIndex

/-! ### The main theorem -/

namespace RowIndex

/-- **Locations and reads are settled by the sequence of rows.**  A position is
located if there are as many rows, at the one place in a chunk with just so many
rows before it, and every such place is found.  All reads by position are those
of the rows in order, so an index with the same cells in the same order answers
them alike. -/
theorem reads_follow_rows {x : RowIndex} (hx : Reachable x) :
    (∀ p, (∃ l, x.locate p = .ok l) ↔ p < x.positionCount) ∧
    (∀ p l, x.locate p = .ok l ↔ x.Holds l ∧ x.positionOf l = p) ∧
    (∀ l, x.Holds l → ∃ p < x.positionCount, ∀ q, x.locate q = .ok l ↔ q = p) ∧
    x.ReadsAs x.rowSequence ∧
    ∀ {y : RowIndex}, Reachable y → x.rowSequence.map Row.cells = y.rowSequence.map Row.cells →
      x.ReadsAlike y := by
  have hwell := hx.wellFormed
  refine ⟨fun _ => exists_locate_iff hwell, fun _ _ => locate_eq_ok_iff hwell, ?_,
    readsAs_rowSequence hwell, fun hy => readsAlike_of_cells hwell hy.wellFormed⟩
  intro l hl
  refine ⟨x.positionOf l, hl.positionOf_lt_positionCount hwell, ?_⟩
  intro q
  rw [locate_eq_ok_iff hwell]
  exact ⟨fun h => h.2.symm, fun h => ⟨hl, h.symm⟩⟩

/-- Three rows cut in two ways, with an empty chunk in one of them. -/
theorem reads_follow_rows_three :
    ∃ x y, ofChunks [⟨0, .ofLongs [7, 8]⟩, ⟨1, .ofLongs []⟩, ⟨2, .ofLongs [9]⟩] = x ∧
      ofChunks [⟨3, .ofLongs [7]⟩, ⟨4, .ofLongs [8, 9]⟩] = y ∧ Reachable x ∧ Reachable y ∧
      x.locate 2 = .ok ⟨2, 0⟩ ∧ (∀ l, x.locate 3 ≠ .ok l) ∧
      x.getValue 0 1 = .ok (.long 8) ∧ x.isNull 0 1 = .ok false ∧
      x.valuesAt 2 = .ok [.long 9] ∧ x.addressedValues 2 = .ok [.long 9] ∧
      x.hashCode 2 = .ok (Hash.combine 0 (PayloadHash.ofInt64 9)) ∧
      x.equals 0 2 = .ok false ∧ y.valuesAt 2 = .ok [.long 9] := by
  have hx := reachable_ofChunks [⟨0, .ofLongs [7, 8]⟩, ⟨1, .ofLongs []⟩, ⟨2, .ofLongs [9]⟩]
  have hy := reachable_ofChunks [⟨3, .ofLongs [7]⟩, ⟨4, .ofLongs [8, 9]⟩]
  obtain ⟨hexists, hlocate, -, hreads, halike⟩ := reads_follow_rows hx
  have hvalues := hreads.valuesAt_eq (p := 2) rfl
  refine ⟨_, _, rfl, rfl, hx, hy, ?_, ?_, ?_, ?_, hvalues, ?_, ?_, ?_, ?_⟩
  · exact (hlocate 2 ⟨2, 0⟩).2 ⟨⟨⟨2, .ofLongs [9]⟩, rfl, by decide⟩, rfl⟩
  · exact fun l hl => absurd ((hexists 3).1 ⟨l, hl⟩) (by decide)
  · exact hreads.getValue_eq (p := 1) 0 rfl
  · exact hreads.isNull_eq (p := 1) 0 rfl
  · exact hreads.addressedValues_eq (p := 2) rfl
  · exact hreads.hashCode_eq (p := 2) rfl
  · exact hreads.equals_eq (p := 0) (q := 2) rfl rfl
  · exact ((halike hy rfl).valuesAt_eq 2).symm.trans hvalues

end RowIndex

end Columnar
