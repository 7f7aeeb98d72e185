import Columnar.Block.Cell
import Columnar.Proofs.Results

/-!
# Cells

A cell is known by the type of its block and by its value.  Whether it is null,
its hash code and what it equals are all functions of these two, so it does not
matter in which block a cell stands.  This holds also where a value cannot be
read, for the reason tells whether the mask or the payload is missing.

## Main definitions

* `Cell`, `Block.cellAt` — a type and a value.
* `Cell.isNull`, `Cell.hashCode`, `Cell.equals` — the reads of a cell as functions
  of these.
* `CellKey.hashCode` — the hash code of what counts of a cell.

## Main results

* `Block.isNull_eq`, `Block.hashCode_eq`, `Block.equals_eq` — **reads of blocks are
  reads of cells.**
-/

namespace Columnar

/-! ### Definitions -/

/-- A cell as it shows: the type of its block, and its value or why it cannot be
read. -/
structure Cell where
  type : DataType
  value : Result Value

/-- The cell at a position of a block. -/
def Block.cellAt (b : Block) (position : Nat) : Cell := ⟨b.type, b.getValue position⟩

/-- Cells of the two types can be equal without being null. -/
def DataType.comparable (s t : DataType) : Bool :=
  s == t || ((s == .int || s == .long) && (t == .int || t == .long))

def CellKey.hashCode [PayloadHash] : CellKey → UInt64
  | null => Hash.null
  | integer n => PayloadHash.ofInt64 n
  | double bits => PayloadHash.ofBits bits
  | boolean b => PayloadHash.ofBool b
  | string s => PayloadHash.ofString s

namespace Cell

/-- Whether the cell is null.  A payload that is missing is no null. -/
def isNull (c : Cell) : Result Bool :=
  match c.value with
  | .ok v => .ok v.isNull
  | .error .outOfBounds => .ok false
  | .error failure => .error failure

def key (c : Cell) : Result CellKey := Value.key <$> c.value

def hashCode [PayloadHash] (c : Cell) : Result UInt64 := CellKey.hashCode <$> c.key

def equals (c d : Cell) : Result Bool := do
  match ← c.isNull, ← d.isNull with
  | true, true => return true
  | true, false | false, true => return false
  | false, false =>
    if c.type.comparable d.type then return (← c.key) == (← d.key)
    else return false

end Cell

/-! ### Payloads -/

namespace Block

variable {b : Block} {i : Nat}

/-- A payload that can be read is no null. -/
theorem isNull_of_payload {v : Value} (h : b.payload i = .ok v) : v.isNull = false := by
  cases b with
  | int c => obtain ⟨n, -, rfl⟩ := Result.map_eq_ok_iff.1 h; rfl
  | long c => obtain ⟨n, -, rfl⟩ := Result.map_eq_ok_iff.1 h; rfl
  | double c => obtain ⟨x, -, rfl⟩ := Result.map_eq_ok_iff.1 h; rfl
  | boolean c => obtain ⟨x, -, rfl⟩ := Result.map_eq_ok_iff.1 h; rfl
  | varchar c => obtain ⟨s, -, rfl⟩ := Result.map_eq_ok_iff.1 h; rfl

theorem get_text_eq_error {c : TextColumn} {failure : Failure} (h : c.get i = .error failure) :
    failure = .outOfBounds := by
  unfold TextColumn.get at h
  simp only [Result.bind_eq_error_iff, Result.element_eq_error_iff] at h
  rcases h with ⟨-, rfl⟩ | ⟨start, -, ⟨-, rfl⟩ | ⟨stop, -, h⟩⟩
  · rfl
  · rfl
  · unfold TextColumn.slice at h
    split at h
    · split at h
      · cases h
      · cases h
        rfl
    · cases h
      rfl

/-- There is one reason why a payload cannot be read. -/
theorem payload_eq_error {failure : Failure} (h : b.payload i = .error failure) :
    failure = .outOfBounds := by
  cases b with
  | int c => exact (Result.element_eq_error_iff.1 (Result.map_eq_error_iff.1 h)).2
  | long c => exact (Result.element_eq_error_iff.1 (Result.map_eq_error_iff.1 h)).2
  | double c => exact (Result.element_eq_error_iff.1 (Result.map_eq_error_iff.1 h)).2
  | boolean c => exact (Result.element_eq_error_iff.1 (Result.map_eq_error_iff.1 h)).2
  | varchar c => exact get_text_eq_error (Result.map_eq_error_iff.1 h)

/-- A null mask that is too short says so in its own way. -/
theorem isNull_ne_outOfBounds : b.isNull i ≠ .error .outOfBounds := by
  unfold isNull NullMask.isNull
  split
  · intro h
    cases h
  · next bits hbits =>
    unfold Bitmap.get
    intro h
    rcases Result.bind_eq_error_iff.1 h with h | ⟨_, -, h⟩
    · cases (Result.require_eq_error_iff.1 h).2
    · cases h

theorem getValue_of_error {failure : Failure} (h : b.isNull i = .error failure) :
    b.getValue i = .error failure := by
  rw [getValue, h]
  rfl

theorem getValue_of_null (h : b.isNull i = .ok true) : b.getValue i = .ok .null := by
  rw [getValue, h]
  rfl

theorem getValue_of_not_null (h : b.isNull i = .ok false) : b.getValue i = b.payload i := by
  rw [getValue, h]
  rfl

/-! ### Reads of blocks as reads of cells -/

/-- **Whether a cell is null shows in its value.** -/
theorem isNull_eq (b : Block) (i : Nat) : b.isNull i = (b.cellAt i).isNull := by
  unfold Cell.isNull cellAt
  cases h : b.isNull i with
  | error failure =>
    rw [getValue_of_error h]
    cases failure with
    | outOfBounds => exact absurd h isNull_ne_outOfBounds
    | refused _ => rfl
    | misused _ => rfl
    | overflow => rfl
  | ok null =>
    cases null with
    | true =>
      rw [getValue_of_null h]
      rfl
    | false =>
      rw [getValue_of_not_null h]
      -- The value is a payload, or the one failure that payloads have.
      cases hpayload : b.payload i with
      | error failure =>
        cases payload_eq_error hpayload
        rfl
      | ok v =>
        show Except.ok false = Except.ok v.isNull
        rw [isNull_of_payload hpayload]

/-- **The hash code of a cell is that of its value.** -/
theorem hashCode_eq [PayloadHash] (b : Block) (i : Nat) : b.hashCode i = (b.cellAt i).hashCode := by
  unfold hashCode Cell.hashCode cellAt
  cases h : b.isNull i with
  | error failure =>
    rw [getValue_of_error h]
    rfl
  | ok null =>
    cases null with
    | true =>
      rw [getValue_of_null h]
      rfl
    | false =>
      rw [getValue_of_not_null h]
      -- Once the payload has been read, both sides compute the same code.
      cases b with
      | int c => cases hget : c.get i <;> simp [payload, hget] <;> rfl
      | long c => cases hget : c.get i <;> simp [payload, hget] <;> rfl
      | double c => cases hget : c.get i <;> simp [payload, hget] <;> rfl
      | boolean c => cases hget : c.get i <;> simp [payload, hget] <;> rfl
      | varchar c => cases hget : c.get i <;> simp [payload, hget] <;> rfl

/-! ### Comparing -/

/-- Comparing what two results are wrapped into is comparing the results. -/
theorem compare_map {α : Type} [BEq α] [LawfulBEq α] {wrap : α → CellKey}
    (hwrap : ∀ x y, wrap x = wrap y → x = y) (r s : Result α) :
    (do return (← wrap <$> r) == (← wrap <$> s) : Result Bool) = (do return (← r) == (← s)) := by
  cases r with
  | error failure => rfl
  | ok x =>
    cases s with
    | error failure => rfl
    | ok y =>
      show Except.ok (wrap x == wrap y) = Except.ok (x == y)
      refine congrArg Except.ok (Bool.eq_iff_iff.2 ?_)
      rw [beq_iff_eq, beq_iff_eq]
      exact ⟨hwrap x y, congrArg wrap⟩

theorem key_payload_int (c : FixedColumn Int32) (i : Nat) :
    Value.key <$> (int c).payload i = CellKey.integer <$> (int c).getLong i := by
  show Value.key <$> Value.int <$> c.get i = CellKey.integer <$> (do return (← c.get i).toInt64)
  cases c.get i <;> rfl

theorem key_payload_long (c : FixedColumn Int64) (i : Nat) :
    Value.key <$> (long c).payload i = CellKey.integer <$> (long c).getLong i :=
  (comp_map Value.long Value.key (c.get i)).symm

theorem key_payload_double (c : FixedColumn Double) (i : Nat) :
    Value.key <$> (double c).payload i = CellKey.double <$> Double.canonicalBits <$> c.get i := by
  show Value.key <$> Value.double <$> c.get i = _
  rw [← comp_map, ← comp_map]
  rfl

theorem key_payload_boolean (c : FixedColumn Bool) (i : Nat) :
    Value.key <$> (boolean c).payload i = CellKey.boolean <$> c.get i :=
  (comp_map Value.boolean Value.key (c.get i)).symm

theorem key_payload_varchar (c : TextColumn) (i : Nat) :
    Value.key <$> (varchar c).payload i = CellKey.string <$> c.get i :=
  (comp_map Value.string Value.key (c.get i)).symm

/-- Payloads of types that can be equal are compared by their keys. -/
theorem samePayload_eq (a : Block) (i : Nat) (b : Block) (j : Nat) :
    a.samePayload i b j = if a.type.comparable b.type then
      (do return (← Value.key <$> a.payload i) == (← Value.key <$> b.payload j))
    else .ok false := by
  have hinteger : ∀ r s : Result Int64,
      (do return (← CellKey.integer <$> r) == (← CellKey.integer <$> s) : Result Bool) =
        (do return (← r) == (← s)) := compare_map fun _ _ => CellKey.integer.inj
  -- Integers of both widths meet as long ones, and every other type only meets itself.  In
  -- the cases left out, both sides answer without a look at the payloads.
  cases a with
  | int c =>
    cases b with
    | int d => rw [key_payload_int, key_payload_int, hinteger]; rfl
    | long d => rw [key_payload_int, key_payload_long, hinteger]; rfl
    | _ => rfl
  | long c =>
    cases b with
    | int d => rw [key_payload_long, key_payload_int, hinteger]; rfl
    | long d => rw [key_payload_long, key_payload_long, hinteger]; rfl
    | _ => rfl
  | double c =>
    cases b with
    | double d =>
      -- The bits are made canonical before they are compared, as they are in a key.
      rw [key_payload_double, key_payload_double, compare_map fun _ _ => CellKey.double.inj]
      show (do return (← c.get i).canonicalBits == (← d.get j).canonicalBits) =
        (do return (← Double.canonicalBits <$> c.get i) == (← Double.canonicalBits <$> d.get j))
      cases c.get i <;> cases d.get j <;> rfl
    | _ => rfl
  | boolean c =>
    cases b with
    | boolean d =>
      rw [key_payload_boolean, key_payload_boolean, compare_map fun _ _ => CellKey.boolean.inj]
      rfl
    | _ => rfl
  | varchar c =>
    cases b with
    | varchar d =>
      rw [key_payload_varchar, key_payload_varchar, compare_map fun _ _ => CellKey.string.inj]
      rfl
    | _ => rfl

/-- **Comparing cells of blocks is comparing types and values.** -/
theorem equals_eq (a : Block) (i : Nat) (b : Block) (j : Nat) :
    a.equals i b j = (a.cellAt i).equals (b.cellAt j) := by
  unfold equals Cell.equals
  rw [← isNull_eq, ← isNull_eq]
  -- The marks come first, and the payloads are compared only if neither cell is null.
  cases ha : a.isNull i with
  | error failure => rfl
  | ok nullLeft =>
    cases hb : b.isNull j with
    | error failure => rfl
    | ok nullRight =>
      cases nullLeft with
      | true => cases nullRight <;> rfl
      | false =>
        cases nullRight with
        | true => rfl
        | false =>
          show a.samePayload i b j = _
          rw [samePayload_eq, ← getValue_of_not_null ha, ← getValue_of_not_null hb]
          rfl

end Block

end Columnar
