import Columnar.Proofs.Built
import Columnar.Proofs.KeyLists
import Columnar.Proofs.Results

/-!
# Choosing key columns

A choice of columns is accepted if each of them is a column of the schema and of a
type that a list takes.  The first one that is not decides the refusal.  A chunk
whose columns have the types of the schema then has a column of the right type for
each list, and as long as the list has room for it, it can be copied.

## Main definitions

* `KeyColumns.Accepts`, `KeyColumns.Refuses` — the two answers for one column.
* `Chunk.OfSchema` — a rectangular chunk with the types of a schema.
* `ListKind.takes`, `KeyColumns.Takes` — the columns that a list can take, and a chunk
  with such a column for each list.
* `KeyColumns.Fits` — a chunk that has a column of the very type for each list.

## Main results

* `KeyColumns.ofSchema_eq_error_iff` — **the first column that is refused decides.**
* `KeyColumns.exists_ofSchema_iff`, `KeyColumns.keys_ofSchema` — which choices are
  accepted, and that their order is kept.
* `KeyColumns.status_fillLists_eq_ok_iff` — when the columns of a chunk are copied.
* `KeyColumns.fillLists_of_fits` — **a chunk that fits can be copied.**
-/

namespace Columnar

/-! ### Definitions -/

/-- Whether a list of the kind can take a column of the type. -/
def ListKind.takes : ListKind → DataType → Bool
  | int, .int | long, .long | long, .int | double, .double => true
  | _, _ => false

namespace KeyColumns

/-- The column is one of the schema, of numbers that a list takes. -/
def Accepts (schema : List DataType) (key : Nat) : Prop :=
  ∃ type ∈ [DataType.int, .long, .double], schema[key]? = some type

/-- Why a column is refused. -/
inductive Refuses (schema : List DataType) (key : Nat) : Failure → Prop
  /-- The schema ends before it. -/
  | missing : schema.length ≤ key →
      Refuses schema key (.refused (.invalidOptions (.keyColumn key schema.length)))
  /-- No list takes its type. -/
  | unsupported {type : DataType} : schema[key]? = some type →
      type ∉ [DataType.int, .long, .double] →
        Refuses schema key (.refused (.unsupportedTypedColumn key type))

/-- The chunk has each of the columns, with a type that its list can take. -/
def Takes (k : KeyColumns) (chunk : Chunk) : Prop :=
  ∀ column kind, (column, kind) ∈ k.columns →
    ∃ block, chunk.blocks[column]? = some block ∧ kind.takes block.type = true

/-- The chunk can be copied: it is rectangular and has a column of the right type for
each list. -/
structure Fits (k : KeyColumns) (c : Chunk) : Prop where
  rectangular : c.Rectangular
  exists_block : ∀ {column : Nat} {kind : ListKind}, (column, kind) ∈ k.columns →
    ∃ block, c.blocks[column]? = some block ∧ ListKind.ofType? block.type = some kind

end KeyColumns

/-- The chunk has the columns of the schema, all as long as the chunk. -/
structure Chunk.OfSchema (schema : List DataType) (c : Chunk) : Prop where
  rectangular : c.Rectangular
  types_eq : c.blocks.map Block.type = schema

theorem ListKind.exists_ofType?_iff {type : DataType} :
    (∃ kind, ofType? type = some kind) ↔ type ∈ [DataType.int, .long, .double] := by
  cases type <;> simp [ofType?]

namespace KeyColumns

variable {schema : List DataType} {keys : List Nat} {key : Nat} {k : KeyColumns}
  {failure : Failure}

/-! ### One column -/

theorem keyColumn_eq_ok_iff {column : Nat × ListKind} :
    keyColumn schema key = .ok column ↔ ∃ type kind, schema[key]? = some type ∧
      ListKind.ofType? type = some kind ∧ column = (key, kind) := by
  unfold keyColumn
  cases schema[key]? with
  | none => exact ⟨nofun, nofun⟩
  | some type =>
    dsimp only
    cases htype : ListKind.ofType? type with
    | none =>
      constructor
      · exact nofun
      · rintro ⟨_, kind, ⟨⟩, hkind, -⟩
        rw [htype] at hkind
        cases hkind
    | some kind =>
      constructor
      · intro h
        exact ⟨type, kind, rfl, htype, (Except.ok.inj h).symm⟩
      · rintro ⟨_, other, ⟨⟩, hkind, rfl⟩
        rw [Option.some.inj (htype.symm.trans hkind)]

theorem exists_keyColumn_iff : (∃ column, keyColumn schema key = .ok column) ↔
    Accepts schema key := by
  simp only [keyColumn_eq_ok_iff]
  constructor
  · rintro ⟨_, type, kind, htype, hkind, -⟩
    exact ⟨type, ListKind.exists_ofType?_iff.1 ⟨kind, hkind⟩, htype⟩
  · rintro ⟨type, hmem, htype⟩
    obtain ⟨kind, hkind⟩ := ListKind.exists_ofType?_iff.2 hmem
    exact ⟨_, type, kind, htype, hkind, rfl⟩

theorem keyColumn_eq_error_iff : keyColumn schema key = .error failure ↔
    Refuses schema key failure := by
  unfold keyColumn
  cases htype : schema[key]? with
  | none =>
    constructor
    · rintro ⟨⟩
      exact .missing (List.getElem?_eq_none_iff.1 htype)
    · rintro (_ | ⟨hother, _⟩)
      · rfl
      · rw [htype] at hother
        cases hother
  | some type =>
    dsimp only
    have hlt : key < schema.length := (List.getElem?_eq_some_iff.1 htype).1
    cases hkind : ListKind.ofType? type with
    | none =>
      constructor
      · rintro ⟨⟩
        refine .unsupported htype fun hmem => ?_
        obtain ⟨kind, hsome⟩ := ListKind.exists_ofType?_iff.2 hmem
        rw [hkind] at hsome
        cases hsome
      · rintro (hle | ⟨hother, _⟩)
        · exact absurd hlt (Nat.not_lt.2 hle)
        · rw [Option.some.inj (htype.symm.trans hother)]
          rfl
    | some kind =>
      refine ⟨nofun, ?_⟩
      rintro (hle | ⟨hother, hmem⟩)
      · exact absurd hlt (Nat.not_lt.2 hle)
      · rw [← Option.some.inj (htype.symm.trans hother)] at hmem
        exact absurd (ListKind.exists_ofType?_iff.1 ⟨kind, hkind⟩) hmem

/-! ### All columns -/

theorem exists_ofSchema_iff : (∃ k, ofSchema schema keys = .ok k) ↔
    ∀ key ∈ keys, Accepts schema key := by
  simp only [ofSchema, Result.exists_map_iff, Result.exists_mapM_iff, exists_keyColumn_iff]

/-- **The first column that is refused decides.** -/
theorem ofSchema_eq_error_iff : ofSchema schema keys = .error failure ↔
    ∃ before key after, keys = before ++ key :: after ∧
      (∀ earlier ∈ before, Accepts schema earlier) ∧ Refuses schema key failure := by
  simp only [ofSchema, Result.map_eq_error_iff, Result.mapM_eq_error_iff, exists_keyColumn_iff,
    keyColumn_eq_error_iff]

theorem ofSchema_eq_ok_iff : ofSchema schema keys = .ok k ↔
    keys.mapM (keyColumn schema) = .ok k.columns := by
  rw [ofSchema, Result.map_eq_ok_iff]
  constructor
  · rintro ⟨columns, hcolumns, rfl⟩
    exact hcolumns
  · exact fun h => ⟨k.columns, h, rfl⟩

/-- The choice keeps the columns in the order given. -/
theorem keys_ofSchema (h : ofSchema schema keys = .ok k) : k.keys = keys := by
  refine Result.map_eq_of_mapM (f := keyColumn schema) ?_ (ofSchema_eq_ok_iff.1 h)
  intro key column hcolumn
  obtain ⟨_, _, -, -, rfl⟩ := keyColumn_eq_ok_iff.1 hcolumn
  rfl

/-- A chunk of the schema can be copied. -/
theorem fits_of_ofSchema (h : ofSchema schema keys = .ok k) {c : Chunk} (hc : c.OfSchema schema) :
    k.Fits c := by
  refine ⟨hc.rectangular, fun {column kind} hcolumn => ?_⟩
  obtain ⟨key, -, hkey⟩ := Result.exists_of_mem_mapM (ofSchema_eq_ok_iff.1 h) hcolumn
  obtain ⟨type, _, htype, hkind, heq⟩ := keyColumn_eq_ok_iff.1 hkey
  cases heq
  rw [← hc.types_eq, List.getElem?_map, Option.map_eq_some_iff] at htype
  obtain ⟨block, hblock, rfl⟩ := htype
  exact ⟨block, hblock, hkind⟩

end KeyColumns

/-! ### Copying -/

/-- A list of the kind for the type of its column stores payloads as they are. -/
theorem ListKind.store_of_type {kind : ListKind} {type : DataType} {v : Value}
    (hkind : ofType? type = some kind) (hv : v.type? = some type) : kind.store v = some v := by
  cases v <;> cases hv <;> cases hkind <;> rfl

/-- A list can take columns of the type it was made for. -/
theorem ListKind.takes_of_type {kind : ListKind} {type : DataType}
    (hkind : ofType? type = some kind) : kind.takes type = true := by
  cases type <;> cases hkind <;> rfl

/-- **A list takes a block of a suitable type that ends within it**, and no
other. -/
theorem FlatList.exists_copyBlock_iff {list : FlatList} {block : Block} {base : Nat} :
    (∃ after, list.copyBlock block base = .ok after) ↔ list.kind.takes block.type = true ∧
      base + block.positionCount < Size.limit ∧ base + block.positionCount ≤ list.length := by
  have hcopy : ∀ {α : Type} {xs ys : Array α} {wrap : Array α → FlatList} {n : Nat},
      ys.size = n → ((∃ after, wrap <$> overwrite xs base ys = .ok after) ↔
        true = true ∧ base + n < Size.limit ∧ base + n ≤ xs.size) := by
    rintro α xs ys wrap _ rfl
    rw [Result.exists_map_iff]
    constructor
    · rintro ⟨zs, hzs⟩
      obtain ⟨hlimit, hle, -⟩ := overwrite_eq_ok_iff.1 hzs
      exact ⟨rfl, hlimit, hle⟩
    · rintro ⟨-, hlimit, hle⟩
      exact ⟨_, overwrite_eq_ok_iff.2 ⟨hlimit, hle, rfl⟩⟩
  have hrefuse : ∀ {m : Misuse} {P : Prop},
      (∃ after, (Result.misuse m : Result FlatList) = .ok after) ↔ false = true ∧ P := by
    intro m P
    constructor
    · rintro ⟨_, ⟨⟩⟩
    · rintro ⟨⟨⟩, -⟩
  -- A list takes blocks of its own type, and one of long integers takes the short ones too.
  cases list with
  | int xs =>
    cases block with
    | int c => exact hcopy rfl
    | _ => exact hrefuse
  | long xs =>
    cases block with
    | int c => exact hcopy (Array.size_map ..)
    | long c => exact hcopy rfl
    | _ => exact hrefuse
  | double xs =>
    cases block with
    | double c => exact hcopy rfl
    | _ => exact hrefuse

namespace KeyColumns

variable {k : KeyColumns} {chunk : Chunk} {base n : Nat} {lists : List FlatList}

/-- Filling succeeds if each column can be copied into its list. -/
theorem status_fillLists : ∀ {columns : List (Nat × ListKind)} {lists : List FlatList},
    (∀ (l column : Nat) (kind : ListKind) (list : FlatList),
      columns[l]? = some (column, kind) → lists[l]? = some list →
        ∃ after, copyColumn chunk base column list = .ok after) →
      (fillLists chunk base columns lists).status = .ok () := by
  intro columns
  induction columns with
  | nil => intro lists _; rfl
  | cons head columns ih =>
    obtain ⟨column, kind⟩ := head
    intro lists h
    cases lists with
    | nil => rfl
    | cons list lists =>
      obtain ⟨after, hafter⟩ := h 0 column kind list rfl rfl
      rw [fillLists_of_ok hafter, Outcome.status_map]
      exact ih fun l => h (l + 1)

/-- A list has the kind for its column. -/
theorem kind_of_shapes
    (hshape : lists.map FlatList.shape = k.columns.map fun column => (column.2, n)) {l column : Nat}
    {kind : ListKind} {list : FlatList} (hcolumn : k.columns[l]? = some (column, kind))
    (hlist : lists[l]? = some list) : list.kind = kind ∧ list.length = n := by
  have hl := congrArg (·[l]?) hshape
  simp only [List.getElem?_map, hlist, hcolumn, Option.map_some, Option.some.injEq] at hl
  exact Prod.mk.inj hl

/-- If filling succeeds each column was copied. -/
theorem exists_copyColumn_of_status : ∀ {columns : List (Nat × ListKind)} {lists : List FlatList},
    (fillLists chunk base columns lists).status = .ok () →
      ∀ {l column : Nat} {kind : ListKind} {list : FlatList}, columns[l]? = some (column, kind) →
        lists[l]? = some list → ∃ after, copyColumn chunk base column list = .ok after := by
  intro columns
  induction columns with
  | nil => intro lists _ l column kind list hcolumn; cases hcolumn
  | cons head columns ih =>
    obtain ⟨first, firstKind⟩ := head
    intro lists hstatus l column kind list hcolumn hlist
    cases lists with
    | nil => cases hlist
    | cons other lists =>
      -- The columns are copied in order, and the first failure would be that of the whole.
      cases hcopy : copyColumn chunk base first other with
      | error failure =>
        rw [fillLists_of_error hcopy] at hstatus
        cases hstatus
      | ok copy =>
        rw [fillLists_of_ok hcopy, Outcome.status_map] at hstatus
        cases l with
        | zero =>
          cases hcolumn
          cases hlist
          exact ⟨copy, hcopy⟩
        | succ l => exact ih hstatus hcolumn hlist

/-- **The columns of a chunk that ends within the lists are copied if each is there
and of a type that its list can take.** -/
theorem status_fillLists_eq_ok_iff (hbounded : chunk.Bounded)
    (hlimit : base + chunk.positionCount < Size.limit) (hle : base + chunk.positionCount ≤ n)
    (hshape : lists.map FlatList.shape = k.columns.map fun column => (column.2, n)) :
    (fillLists chunk base k.columns lists).status = .ok () ↔ k.Takes chunk := by
  constructor
  · intro hstatus column kind hmem
    obtain ⟨l, hcolumn⟩ := List.mem_iff_getElem?.1 hmem
    obtain ⟨list, hlist⟩ : ∃ list, lists[l]? = some list := by
      have hl := congrArg (·[l]?) hshape
      simp only [List.getElem?_map, hcolumn, Option.map_some] at hl
      obtain ⟨list, hlist, -⟩ := Option.map_eq_some_iff.1 hl
      exact ⟨list, hlist⟩
    obtain ⟨rfl, -⟩ := kind_of_shapes hshape hcolumn hlist
    obtain ⟨after, hcopy⟩ := exists_copyColumn_of_status hstatus hcolumn hlist
    obtain ⟨block, hblock, hcopy⟩ := Result.bind_eq_ok_iff.1 hcopy
    exact ⟨block, Result.nth_eq_ok_iff.1 hblock, (FlatList.exists_copyBlock_iff.1 ⟨_, hcopy⟩).1⟩
  · intro hcolumns
    refine status_fillLists fun l column kind list hcolumn hlist => ?_
    obtain ⟨block, hblock, htakes⟩ := hcolumns column kind (List.mem_of_getElem? hcolumn)
    have hcount := hbounded block (List.mem_of_getElem? hblock)
    obtain ⟨rfl, rfl⟩ := kind_of_shapes hshape hcolumn hlist
    -- All lists are of one length, so the range fits each of them.
    obtain ⟨after, hcopy⟩ : ∃ after, list.copyBlock block base = .ok after :=
      FlatList.exists_copyBlock_iff.2 ⟨htakes, by omega, by omega⟩
    exact ⟨after, Result.bind_eq_ok_iff.2 ⟨block, Result.nth_eq_ok_iff.2 hblock, hcopy⟩⟩

theorem Fits.takes (hfits : k.Fits chunk) : k.Takes chunk := by
  intro column kind hmem
  obtain ⟨block, hblock, hkind⟩ := hfits.exists_block hmem
  exact ⟨block, hblock, ListKind.takes_of_type hkind⟩

/-- **A chunk that fits can be copied** into lists that are long enough. -/
theorem fillLists_of_fits (hfits : k.Fits chunk)
    (hshape : lists.map FlatList.shape = k.columns.map fun column => (column.2, n))
    (hlimit : base + chunk.positionCount < Size.limit) (hle : base + chunk.positionCount ≤ n) :
    (fillLists chunk base k.columns lists).status = .ok () :=
  have hbounded : chunk.Bounded := fun block hmem =>
    Nat.le_of_eq (hfits.rectangular block hmem)
  (status_fillLists_eq_ok_iff hbounded hlimit hle hshape).2 hfits.takes

end KeyColumns

end Columnar
