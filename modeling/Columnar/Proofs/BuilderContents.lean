import Columnar.Block.Builder
import Columnar.Proofs.BitList
import Columnar.Proofs.TextCells

/-!
# What a block builder holds

A block builder keeps payloads and null marks apart.  Every value that is added
adds one of each, so the two stay in step: the marks are those of the values, and
under a null stands the blank payload of the type.

## Main definitions

* `DataType.accepts`, `DataType.payloadOf` — the values that fit a type, and the
  payloads that stand for them.
* `BlockBuilder.Stores`, `BlockBuilder.Holds` — the payloads and the values of a
  builder.

## Main results

* `BlockBuilder.holds_blank`, `BlockBuilder.Holds.push` — a new builder holds
  nothing, and **a value that is added is held.**
* `BlockBuilder.withCapacity_eq_ok_iff` — how much room a builder can have.
* `BlockBuilder.append_eq_ok_iff` — which values can be added.
* `BlockBuilder.append_of_writeTo`, `BlockBuilder.writeTo_of_append` — the cell of a
  block is added as its value.
-/

namespace Columnar

/-! ### Values of a type -/

namespace DataType

/-- Whether a value fits a column of the type. -/
def accepts (type : DataType) (value : Value) : Bool := value.type?.all (· == type)

/-- The payload that stands under a null in a column of the type. -/
def blank : DataType → Value
  | int => .int 0
  | long => .long 0
  | double => .double ⟨0⟩
  | boolean => .boolean false
  | varchar => .string ""

/-- The payload of a cell with the given value. -/
def payloadOf (type : DataType) (value : Value) : Value :=
  if value.isNull then type.blank else value

theorem payloadOf_null (type : DataType) : type.payloadOf .null = type.blank := rfl

theorem payloadOf_of_not_null (type : DataType) {value : Value} (h : value.isNull = false) :
    type.payloadOf value = value := by
  rw [payloadOf, h]
  rfl

theorem accepts_iff {type : DataType} {value : Value} :
    type.accepts value = true ↔ value = .null ∨ value.type? = some type := by
  cases value <;> simp [accepts, Value.type?]

end DataType

/-! ### What a builder holds -/

namespace BlockBuilder

variable {b after : BlockBuilder} {payloads values : List Value} {value : Value}

/-- The null marks of the builder. -/
def nulls : BlockBuilder → Bitmap
  | int b => b.nulls
  | long b => b.nulls
  | double b => b.nulls
  | boolean b => b.nulls
  | varchar b => b.nulls

/-- The payloads in the builder, also those under nulls. -/
def Stores : BlockBuilder → List Value → Prop
  | int b, payloads => payloads = b.values.toList.map .int
  | long b, payloads => payloads = b.values.toList.map .long
  | double b, payloads => payloads = b.values.toList.map .double
  | boolean b, payloads => payloads = b.values.toList.map .boolean
  | varchar b, payloads => ∃ strings, b.Holds strings ∧ payloads = strings.map .string

/-- The values added to a builder: a mark for each null, and a payload for each
value. -/
structure Holds (b : BlockBuilder) (values : List Value) : Prop where
  marks : b.nulls.Holds (values.map Value.isNull)
  payloads : b.Stores (values.map b.type.payloadOf)

theorem accepts_eq (b : BlockBuilder) (value : Value) : b.accepts value = b.type.accepts value := by
  cases value <;> simp [accepts, DataType.accepts, Value.type?]

theorem push_null (b : BlockBuilder) : b.push .null = b.appendNull := by
  cases b <;> rfl

@[simp] theorem type_push (b : BlockBuilder) (value : Value) : (b.push value).type = b.type := by
  cases b <;> cases value <;> rfl

@[simp] theorem type_build (b : BlockBuilder) : b.build.type = b.type := by
  cases b <;> rfl

theorem type_blank (type : DataType) (capacity : Nat) : (blank type capacity).type = type := by
  cases type <;> rfl

theorem holds_blank (type : DataType) (capacity : Nat) : (blank type capacity).Holds [] := by
  have hmarks := Bitmap.holds_withCapacity capacity
  cases type with
  | int => exact ⟨hmarks, rfl⟩
  | long => exact ⟨hmarks, rfl⟩
  | double => exact ⟨hmarks, rfl⟩
  | boolean => exact ⟨hmarks, rfl⟩
  | varchar => exact ⟨hmarks, [], TextBuilder.holds_blank capacity, rfl⟩

theorem Stores.positionCount_eq (h : b.Stores payloads) : b.positionCount = payloads.length := by
  cases b with
  | int b => rw [h, List.length_map, Array.length_toList]; rfl
  | long b => rw [h, List.length_map, Array.length_toList]; rfl
  | double b => rw [h, List.length_map, Array.length_toList]; rfl
  | boolean b => rw [h, List.length_map, Array.length_toList]; rfl
  | varchar b =>
    obtain ⟨strings, hstrings, rfl⟩ := h
    rw [List.length_map]
    exact hstrings.length_eq

/-- Adding to an array adds to the payloads it is wrapped into. -/
theorem map_toList_push {α : Type} (xs : Array α) (a : α) (wrap : α → Value) :
    xs.toList.map wrap ++ [wrap a] = (xs.push a).toList.map wrap := by
  rw [Array.toList_push, List.map_append]
  rfl

/-- A null adds the blank payload. -/
theorem Stores.appendNull (h : b.Stores payloads) :
    b.appendNull.Stores (payloads ++ [b.type.blank]) := by
  cases b with
  | int b => rw [h]; exact map_toList_push b.values 0 .int
  | long b => rw [h]; exact map_toList_push b.values 0 .long
  | double b => rw [h]; exact map_toList_push b.values ⟨0⟩ .double
  | boolean b => rw [h]; exact map_toList_push b.values false .boolean
  | varchar b =>
    obtain ⟨strings, hstrings, rfl⟩ := h
    refine ⟨_, hstrings.pushNull, ?_⟩
    rw [List.map_append]
    rfl

/-- A value that fits adds its payload. -/
theorem Stores.push (h : b.Stores payloads) (hvalue : b.accepts value = true) :
    (b.push value).Stores (payloads ++ [b.type.payloadOf value]) := by
  -- A value other than a null is taken by the builder of its own type only.
  cases value with
  | null => rw [push_null, DataType.payloadOf_null]; exact h.appendNull
  | int n =>
    cases b with
    | int b => rw [h]; exact map_toList_push b.values n .int
    | _ => cases hvalue
  | long n =>
    cases b with
    | long b => rw [h]; exact map_toList_push b.values n .long
    | _ => cases hvalue
  | double x =>
    cases b with
    | double b => rw [h]; exact map_toList_push b.values x .double
    | _ => cases hvalue
  | boolean x =>
    cases b with
    | boolean b => rw [h]; exact map_toList_push b.values x .boolean
    | _ => cases hvalue
  | string s =>
    cases b with
    | varchar b =>
      obtain ⟨strings, hstrings, rfl⟩ := h
      refine ⟨_, hstrings.push s, ?_⟩
      rw [List.map_append]
      rfl
    | _ => cases hvalue

/-- A value that fits adds one mark. -/
theorem nulls_push (hvalue : b.accepts value = true) :
    (b.push value).nulls = b.nulls.push value.isNull := by
  cases value with
  | null => cases b <;> rfl
  | _ => cases b <;> first | rfl | cases hvalue

/-- **A value that is added is held.** -/
theorem Holds.push (h : b.Holds values) (hvalue : b.accepts value = true) :
    (b.push value).Holds (values ++ [value]) where
  marks := by
    rw [nulls_push hvalue, List.map_append]
    exact h.marks.push value.isNull
  payloads := by
    rw [type_push, List.map_append]
    exact h.payloads.push hvalue

theorem Holds.positionCount_eq (h : b.Holds values) : b.positionCount = values.length := by
  rw [h.payloads.positionCount_eq, List.length_map]

/-! ### Adding cells -/

/-- The bytes of the room for so many cells: those of their payloads, or of the offsets
of their texts, which are one more. -/
def roomBytes (type : DataType) (capacity : Nat) : Nat :=
  match type.fixedSize? with
  | some width => capacity * width
  | none => (capacity + 1) * 8

/-- **A builder can have room that fits an array**, and is the one without cells then. -/
theorem withCapacity_eq_ok_iff {type : DataType} {capacity : Nat} :
    withCapacity type capacity = .ok b ↔
      roomBytes type capacity < Size.arrayLimit ∧ b = blank type capacity := by
  -- The types of fixed width ask for room in one way.
  have hfixed : ∀ width, ((do Size.room capacity width; return blank type capacity) = .ok b ↔
      capacity * width < Size.arrayLimit ∧ b = blank type capacity) := by
    intro width
    rw [Result.bind_eq_ok_iff]
    simp [Size.room_eq_ok_iff, pure, Except.pure, eq_comm (b := b)]
  cases type with
  | int => exact hfixed 4
  | long => exact hfixed 8
  | double => exact hfixed 8
  | boolean => exact hfixed 1
  | varchar =>
    have htext : withCapacity .varchar capacity =
        varchar <$> TextBuilder.withCapacity capacity := rfl
    rw [htext, Result.map_eq_ok_iff]
    constructor
    · rintro ⟨text, htext, rfl⟩
      obtain ⟨hroom, rfl⟩ := TextBuilder.withCapacity_eq_ok_iff.1 htext
      exact ⟨hroom, rfl⟩
    · rintro ⟨hroom, rfl⟩
      exact ⟨_, TextBuilder.withCapacity_eq_ok_iff.2 ⟨hroom, rfl⟩, rfl⟩

theorem eq_blank_of_withCapacity {type : DataType} {capacity : Nat}
    (h : withCapacity type capacity = .ok b) : b = blank type capacity :=
  (withCapacity_eq_ok_iff.1 h).2

theorem append_eq_ok_iff :
    b.append value = .ok after ↔ b.accepts value = true ∧ after = b.push value := by
  unfold append check
  rw [Result.bind_eq_ok_iff]
  constructor
  · rintro ⟨_, hvalue, hafter⟩
    exact ⟨Result.require_eq_ok_iff.1 hvalue, (Except.ok.inj hafter).symm⟩
  · rintro ⟨hvalue, rfl⟩
    exact ⟨(), Result.require_eq_ok_iff.2 hvalue, rfl⟩

/-- A cell of a block is added as the value it is. -/
theorem append_of_writeTo {block : Block} {position : Nat}
    (h : block.writeTo position b = .ok after) :
    ∃ value, block.getValue position = .ok value ∧ b.append value = .ok after := by
  simp only [append_eq_ok_iff]
  obtain ⟨null, hnull, hcell⟩ := Result.bind_eq_ok_iff.1 h
  have hvalue : block.getValue position =
      if null then .ok .null else block.payload position := by rw [Block.getValue, hnull]; rfl
  rw [hvalue]
  cases null with
  | true =>
    refine ⟨.null, rfl, rfl, ?_⟩
    rw [← Except.ok.inj hcell]
    cases b <;> rfl
  | false =>
    simp only [Bool.false_eq_true, if_false] at hcell ⊢
    -- One branch for each type that block and builder share, and one for all other pairs.
    split at hcell
    · obtain ⟨n, hget, hafter⟩ := Result.bind_eq_ok_iff.1 hcell
      exact ⟨.int n, Result.map_eq_ok_iff.2 ⟨n, hget, rfl⟩, rfl, (Except.ok.inj hafter).symm⟩
    · obtain ⟨n, hget, hafter⟩ := Result.bind_eq_ok_iff.1 hcell
      exact ⟨.long n, Result.map_eq_ok_iff.2 ⟨n, hget, rfl⟩, rfl, (Except.ok.inj hafter).symm⟩
    · obtain ⟨x, hget, hafter⟩ := Result.bind_eq_ok_iff.1 hcell
      exact ⟨.double x, Result.map_eq_ok_iff.2 ⟨x, hget, rfl⟩, rfl, (Except.ok.inj hafter).symm⟩
    · obtain ⟨x, hget, hafter⟩ := Result.bind_eq_ok_iff.1 hcell
      exact ⟨.boolean x, Result.map_eq_ok_iff.2 ⟨x, hget, rfl⟩, rfl, (Except.ok.inj hafter).symm⟩
    · obtain ⟨s, hget, hafter⟩ := Result.bind_eq_ok_iff.1 hcell
      exact ⟨.string s, Result.map_eq_ok_iff.2 ⟨s, hget, rfl⟩, rfl, (Except.ok.inj hafter).symm⟩
    · cases hcell

/-- A cell whose value fits can be added. -/
theorem writeTo_of_append {block : Block} {position : Nat}
    (hvalue : block.getValue position = .ok value) (h : b.append value = .ok after) :
    block.writeTo position b = .ok after := by
  obtain ⟨hfits, rfl⟩ := append_eq_ok_iff.1 h
  obtain ⟨null, hnull, hcell⟩ := Result.bind_eq_ok_iff.1 hvalue
  unfold Block.writeTo
  refine Result.bind_eq_ok_iff.2 ⟨null, hnull, ?_⟩
  cases null with
  | true =>
    rw [← Except.ok.inj hcell, push_null]
    rfl
  | false =>
    simp only [Bool.false_eq_true, if_false]
    -- The value is of the type of the block, so the builder has to be of that type as well.
    cases block with
    | int c =>
      obtain ⟨n, hget, rfl⟩ := Result.map_eq_ok_iff.1 hcell
      cases b with
      | int b => exact Result.bind_eq_ok_iff.2 ⟨n, hget, rfl⟩
      | _ => cases hfits
    | long c =>
      obtain ⟨n, hget, rfl⟩ := Result.map_eq_ok_iff.1 hcell
      cases b with
      | long b => exact Result.bind_eq_ok_iff.2 ⟨n, hget, rfl⟩
      | _ => cases hfits
    | double c =>
      obtain ⟨x, hget, rfl⟩ := Result.map_eq_ok_iff.1 hcell
      cases b with
      | double b => exact Result.bind_eq_ok_iff.2 ⟨x, hget, rfl⟩
      | _ => cases hfits
    | boolean c =>
      obtain ⟨x, hget, rfl⟩ := Result.map_eq_ok_iff.1 hcell
      cases b with
      | boolean b => exact Result.bind_eq_ok_iff.2 ⟨x, hget, rfl⟩
      | _ => cases hfits
    | varchar c =>
      obtain ⟨s, hget, rfl⟩ := Result.map_eq_ok_iff.1 hcell
      cases b with
      | varchar b => exact Result.bind_eq_ok_iff.2 ⟨s, hget, rfl⟩
      | _ => cases hfits

end BlockBuilder

end Columnar
