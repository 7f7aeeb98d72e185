import Columnar.Bitmap.Lemmas
import Columnar.Block.Text
import Columnar.Proofs.OffsetTable

/-!
# Strings of a text column

The run of bytes of a column is one string, that of all its strings joined, and
its table of offsets is that of their sizes in bytes.  Cutting the run at two
entries that follow each other gives back the bytes of one string, so each
string is read as it was added, whatever characters it is made of.

## Main definitions

* `TextColumn.Holds`, `TextBuilder.Holds` — the strings of a column, and those
  added to a builder.

## Main results

* `TextBuilder.Holds.push`, `TextBuilder.Holds.pushNull` — what is added is held.
* `TextColumn.Holds.get_eq` — **each string reads back.**
-/

namespace Columnar

/-- The offsets and bytes are those of some strings, end to end. -/
def HoldsStrings (offsets : Array Nat) (bytes : ByteArray) (strings : List String) : Prop :=
  offsets.toList = offsetTable 0 (strings.map String.utf8ByteSize) ∧
    bytes = (String.join strings).toUTF8

namespace HoldsStrings

variable {offsets : Array Nat} {bytes : ByteArray} {strings : List String}

theorem size_join : ∀ strings : List String,
    (String.join strings).toUTF8.size = Size.total (strings.map String.utf8ByteSize) := by
  intro strings
  induction strings with
  | nil => rfl
  | cons s rest ih =>
    rw [String.join_cons, String.toUTF8_eq_toByteArray, String.toByteArray_append,
      ByteArray.size_append, List.map_cons, Size.total_cons, ← ih]
    rfl

theorem nil : HoldsStrings #[0] .empty [] := ⟨rfl, rfl⟩

/-- Adding a string adds its bytes and where it ends. -/
theorem append (h : HoldsStrings offsets bytes strings) (s : String) :
    HoldsStrings (offsets.push (bytes ++ s.toUTF8).size) (bytes ++ s.toUTF8) (strings ++ [s]) := by
  obtain ⟨hoffsets, rfl⟩ := h
  have hjoin :
      (String.join (strings ++ [s])).toUTF8 = (String.join strings).toUTF8 ++ s.toUTF8 := by
    rw [String.join_append, String.join_cons, String.join_nil, String.append_empty]
    exact String.toByteArray_append
  refine ⟨?_, hjoin.symm⟩
  rw [← hjoin, size_join, List.map_append, offsetTable_append, Array.toList_push, hoffsets,
    Size.total_append]
  simp

theorem size_offsets (h : HoldsStrings offsets bytes strings) :
    offsets.size = strings.length + 1 := by
  have hlength := congrArg List.length h.1
  rwa [Array.length_toList, length_offsetTable, List.length_map] at hlength

/-- The entry of a string is the size of those before it. -/
theorem element_offsets (h : HoldsStrings offsets bytes strings) {i : Nat}
    (hi : i ≤ strings.length) :
    Result.element offsets i = .ok (String.join (strings.take i)).toUTF8.size := by
  have hi' : i ≤ (strings.map String.utf8ByteSize).length := by rwa [List.length_map]
  rw [Result.element_eq_ok_iff, ← Array.getElem?_toList, h.1, getElem?_offsetTable hi',
    Nat.zero_add, ← List.map_take, size_join]

end HoldsStrings

/-- The bytes of a string are read as that string. -/
theorem fromUTF8?_toUTF8 (s : String) : String.fromUTF8? s.toUTF8 = some s := by
  unfold String.fromUTF8?
  rw [String.toUTF8_eq_toByteArray, dif_pos s.isValidUTF8]
  rfl

namespace TextColumn

variable {column : TextColumn} {strings : List String}

/-- The strings of a column, that of a null cell being empty. -/
def Holds (column : TextColumn) (strings : List String) : Prop :=
  HoldsStrings column.offsets column.bytes strings

theorem Holds.length_eq (h : column.Holds strings) : column.length = strings.length := by
  rw [length, HoldsStrings.size_offsets h, Nat.add_sub_cancel]

/-- **Each string reads back.** -/
theorem Holds.get_eq (h : column.Holds strings) {i : Nat} {s : String}
    (hs : strings[i]? = some s) : column.get i = .ok s := by
  obtain ⟨hi, hget⟩ := List.getElem?_eq_some_iff.1 hs
  have hstart := HoldsStrings.element_offsets h (Nat.le_of_lt hi)
  have hstop := HoldsStrings.element_offsets h (Nat.succ_le_of_lt hi)
  -- The run of bytes is that of the strings before, of the string and of those after.
  have htake : (String.join (strings.take (i + 1))).toUTF8 =
      (String.join (strings.take i)).toUTF8 ++ s.toUTF8 := by
    rw [List.take_add_one, hs, Option.toList_some, String.join_append, String.join_cons,
      String.join_nil, String.append_empty]
    exact String.toByteArray_append
  have hrun : column.bytes = (String.join (strings.take (i + 1))).toUTF8 ++
      (String.join (strings.drop (i + 1))).toUTF8 := by
    have hsplit := congrArg String.join (List.take_append_drop (i + 1) strings)
    rw [String.join_append] at hsplit
    rw [h.2, ← hsplit]
    exact String.toByteArray_append
  have hcut : column.bytes.extract (String.join (strings.take i)).toUTF8.size
      (String.join (strings.take (i + 1))).toUTF8.size = s.toUTF8 := by
    rw [hrun, ByteArray.extract_append_size_left, htake]
    exact ByteArray.extract_append_eq_right rfl ByteArray.size_append
  unfold get slice
  simp only [bind, Except.bind, hstart, hstop]
  rw [if_pos, hcut, fromUTF8?_toUTF8]
  rw [hrun, ByteArray.size_append, htake, ByteArray.size_append]
  omega

/-- A position that is not past the end has a string. -/
theorem Holds.exists_get (h : column.Holds strings) {i : Nat} (hi : i < column.length) :
    ∃ s, column.get i = .ok s := by
  rw [h.length_eq] at hi
  exact ⟨_, h.get_eq (List.getElem?_eq_getElem hi)⟩

end TextColumn

namespace TextBuilder

variable {b : TextBuilder} {strings : List String}

/-- The strings added to a builder, with an empty one for each null, and there is
a mark for each. -/
structure Holds (b : TextBuilder) (strings : List String) : Prop where
  strings_eq : HoldsStrings b.offsets b.bytes strings
  length_nulls : b.nulls.length = strings.length

theorem holds_blank (capacity : Nat) : (blank capacity).Holds [] := ⟨.nil, rfl⟩

theorem Holds.push (h : b.Holds strings) (s : String) : (b.push s).Holds (strings ++ [s]) := by
  refine ⟨h.strings_eq.append s, ?_⟩
  show (b.nulls.push false).length = _
  rw [Bitmap.length_push, h.length_nulls, List.length_append, List.length_singleton]

theorem Holds.pushNull (h : b.Holds strings) : b.pushNull.Holds (strings ++ [""]) := by
  constructor
  · have hempty := h.strings_eq.append ""
    have hbytes : b.bytes ++ "".toUTF8 = b.bytes := ByteArray.append_empty
    rwa [hbytes] at hempty
  · show (b.nulls.push true).length = _
    rw [Bitmap.length_push, h.length_nulls, List.length_append, List.length_singleton]

theorem Holds.length_eq (h : b.Holds strings) : b.length = strings.length := by
  rw [length, h.strings_eq.size_offsets, Nat.add_sub_cancel]

/-- A column holds what was added to its builder. -/
theorem Holds.build (h : b.Holds strings) : b.build.Holds strings := h.strings_eq

/-- A column of text can have room if its offsets fit an array. -/
theorem withCapacity_eq_ok_iff {text : TextBuilder} {capacity : Nat} :
    withCapacity capacity = .ok text ↔
      (capacity + 1) * 8 < Size.arrayLimit ∧ text = blank capacity := by
  unfold withCapacity
  simp only [Result.bind_eq_ok_iff, Size.add_eq_ok_iff, Size.room_eq_ok_iff]
  constructor
  · rintro ⟨_, ⟨-, rfl⟩, _, hroom, heq⟩
    exact ⟨hroom, (Except.ok.inj heq).symm⟩
  · rintro ⟨hroom, rfl⟩
    exact ⟨_, ⟨Size.lt_limit_of_room hroom, rfl⟩, (), hroom, rfl⟩

end TextBuilder

end Columnar
