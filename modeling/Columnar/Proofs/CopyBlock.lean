import Columnar.FlatList

/-!
# Copying blocks into flat lists

A flat list holds values, and a block holds payloads.  Copying a block stores
each payload at its place of a range, in the form that the kind of the list has
for it, and leaves all other places alone.  Reading an integer from a list of
either width undoes the widening, so that a list answers for a copied cell what
the block does.

## Main definitions

* `FlatList.get?` — the value at a place of a list.
* `ListKind.store` — the form in which a kind of list stores a payload.
* `Value.toInt?`, `Value.toLong?`, `Value.toDouble?` — what a typed read makes of
  a value.

## Main results

* `FlatList.copyBlock_copied` — what a copy leaves in the list.
* `FlatList.toOption_getLong` and its like, `Block.toOption_getLong` and its like —
  typed reads as reads of values.
-/

namespace Columnar

/-! ### Values under typed reads -/

namespace Value

/-- The 32-bit integer a value is. -/
def toInt? : Value → Option Int32
  | int n => some n
  | _ => none

/-- The integer a value of either width is. -/
def toLong? : Value → Option Int64
  | int n => some n.toInt64
  | long n => some n
  | _ => none

/-- The double a value is. -/
def toDouble? : Value → Option Double
  | double x => some x
  | _ => none

end Value

/-- The form in which a kind of list stores a payload, if it takes it. -/
def ListKind.store : ListKind → Value → Option Value
  | int, .int n => some (.int n)
  | long, .long n => some (.long n)
  | long, .int n => some (.long n.toInt64)
  | double, .double x => some (.double x)
  | _, _ => none

/-- A stored payload is the same integer under a read of either width. -/
theorem ListKind.toLong?_of_store {kind : ListKind} {v w : Value} (h : kind.store v = some w) :
    w.toLong? = v.toLong? := by
  cases kind <;> cases v <;> cases h <;> rfl

theorem ListKind.toDouble?_of_store {kind : ListKind} {v w : Value} (h : kind.store v = some w) :
    w.toDouble? = v.toDouble? := by
  cases kind <;> cases v <;> cases h <;> rfl

/-- A stored 32-bit integer was one: only wider lists change the width. -/
theorem ListKind.toInt?_of_store {kind : ListKind} {v w : Value} {n : Int32}
    (h : kind.store v = some w) (hn : w.toInt? = some n) : v.toInt? = some n := by
  cases kind <;> cases v <;> cases h <;> first | exact hn | cases hn

namespace Result

variable {α β : Type}

@[simp] theorem toOption_misuse (m : Misuse) : (misuse m : Result α).toOption = none := rfl

@[simp] theorem toOption_element (xs : Array α) (i : Nat) : (element xs i).toOption = xs[i]? := by
  unfold element
  split <;> simp_all [Except.toOption]

@[simp] theorem toOption_map (f : α → β) (r : Result α) :
    (f <$> r).toOption = r.toOption.map f := by
  cases r <;> rfl

theorem toOption_eq_some_iff {r : Result α} {a : α} : r.toOption = some a ↔ r = .ok a := by
  cases r <;> simp [Except.toOption]

end Result

/-! ### Reading -/

namespace FlatList

/-- The value at a place. -/
def get? : FlatList → Nat → Option Value
  | int xs, i => xs[i]?.map .int
  | long xs, i => xs[i]?.map .long
  | double xs, i => xs[i]?.map .double

theorem toOption_getInt (list : FlatList) (i : Nat) :
    (list.getInt i).toOption = (list.get? i).bind Value.toInt? := by
  cases list <;> simp [getInt, get?, Option.bind_map, Function.comp_def, Value.toInt?]

theorem toOption_getLong (list : FlatList) (i : Nat) :
    (list.getLong i).toOption = (list.get? i).bind Value.toLong? := by
  cases list with
  | int xs =>
    simp only [getLong, get?, bind_pure_comp, Result.toOption_map, Result.toOption_element]
    cases xs[i]? <;> rfl
  | long xs =>
    simp only [getLong, get?, Result.toOption_element]
    cases xs[i]? <;> rfl
  | double xs =>
    simp only [getLong, get?, Result.toOption_misuse]
    cases xs[i]? <;> rfl

theorem toOption_getDouble (list : FlatList) (i : Nat) :
    (list.getDouble i).toOption = (list.get? i).bind Value.toDouble? := by
  cases list <;> simp [getDouble, get?, Option.bind_map, Function.comp_def, Value.toDouble?]

end FlatList

namespace Block

theorem toOption_getInt (b : Block) (i : Nat) :
    (b.getInt i).toOption = (b.payload i).toOption.bind Value.toInt? := by
  cases b <;> simp [getInt, payload, FixedColumn.get, Option.bind_map, Function.comp_def,
    Value.toInt?]

theorem toOption_getLong (b : Block) (i : Nat) :
    (b.getLong i).toOption = (b.payload i).toOption.bind Value.toLong? := by
  cases b with
  | int c =>
    simp only [getLong, payload, bind_pure_comp, Result.toOption_map]
    cases (c.get i).toOption <;> rfl
  | long c =>
    simp only [getLong, payload, Result.toOption_map]
    cases (c.get i).toOption <;> rfl
  | double c =>
    simp only [getLong, payload, Result.toOption_map, Result.toOption_misuse]
    cases (c.get i).toOption <;> rfl
  | boolean c =>
    simp only [getLong, payload, Result.toOption_map, Result.toOption_misuse]
    cases (c.get i).toOption <;> rfl
  | varchar c =>
    simp only [getLong, payload, Result.toOption_map, Result.toOption_misuse]
    cases (c.get i).toOption <;> rfl

theorem toOption_getDouble (b : Block) (i : Nat) :
    (b.getDouble i).toOption = (b.payload i).toOption.bind Value.toDouble? := by
  cases b <;> simp [getDouble, payload, FixedColumn.get, Option.bind_map, Function.comp_def,
    Value.toDouble?]

end Block

theorem FixedColumn.get_of_lt {α : Type} {c : FixedColumn α} {i : Nat} (hi : i < c.values.size) :
    c.get i = .ok c.values[i] :=
  Result.element_eq_ok_iff.2 (Array.getElem?_eq_getElem hi)

/-! ### Copying -/

namespace FlatList

variable {α : Type}

theorem overwrite_eq_ok_iff {xs ys zs : Array α} {base : Nat} :
    overwrite xs base ys = .ok zs ↔ base + ys.size < Size.limit ∧ base + ys.size ≤ xs.size ∧
      zs = xs.extract 0 base ++ ys ++ xs.extract (base + ys.size) xs.size := by
  unfold overwrite
  rw [Result.bind_eq_ok_iff]
  constructor
  · rintro ⟨stop, hstop, h⟩
    obtain ⟨hlimit, rfl⟩ := Size.add_eq_ok_iff.1 hstop
    split at h
    · next hle => exact ⟨hlimit, hle, (Except.ok.inj h).symm⟩
    · cases h
  · rintro ⟨hlimit, hle, rfl⟩
    refine ⟨_, Size.add_eq_ok_iff.2 ⟨hlimit, rfl⟩, ?_⟩
    rw [if_pos hle]
    rfl

/-- Overwriting a range changes the elements in it and no others. -/
theorem getElem?_overwrite {xs ys zs : Array α} {base : Nat} (h : overwrite xs base ys = .ok zs)
    (i : Nat) : zs[i]? = if base ≤ i ∧ i < base + ys.size then ys[i - base]? else xs[i]? := by
  obtain ⟨-, hle, rfl⟩ := overwrite_eq_ok_iff.1 h
  have hfront : (xs.extract 0 base).size = base := by
    rw [Array.size_extract]
    omega
  have hmiddle : (xs.extract 0 base ++ ys).size = base + ys.size := by
    rw [Array.size_append, hfront]
  rw [Array.getElem?_append, hmiddle, Array.getElem?_append, hfront]
  -- The result is made of three pieces: before, inside and after the range.
  rcases Nat.lt_or_ge i base with hi | hi
  · rw [if_pos (by omega), if_pos hi, if_neg (by omega), Array.getElem?_extract, if_pos (by omega),
      Nat.zero_add]
  · rcases Nat.lt_or_ge i (base + ys.size) with hlt | hge
    · rw [if_pos hlt, if_neg (by omega), if_pos ⟨hi, hlt⟩]
    · rw [if_neg (by omega), if_neg (by omega), Array.getElem?_extract]
      split
      · congr 1
        omega
      · rw [Array.getElem?_eq_none (by omega)]

theorem size_overwrite {xs ys zs : Array α} {base : Nat} (h : overwrite xs base ys = .ok zs) :
    zs.size = xs.size := by
  obtain ⟨-, hle, rfl⟩ := overwrite_eq_ok_iff.1 h
  simp only [Array.size_append, Array.size_extract]
  omega

theorem getElem?_overwrite_add {xs ys zs : Array α} {base i : Nat}
    (h : overwrite xs base ys = .ok zs) (hi : i < ys.size) : zs[base + i]? = some ys[i] := by
  rw [getElem?_overwrite h, if_pos (by omega), Nat.add_sub_cancel_left,
    Array.getElem?_eq_getElem hi]

/-- `before.Copied block base after` says that `after` is `before` with the
payloads of a block stored at the places from `base` on. -/
structure Copied (before : FlatList) (block : Block) (base : Nat) (after : FlatList) : Prop where
  kind_eq : after.kind = before.kind
  length_eq : after.length = before.length
  /-- The range lies inside the list. -/
  le_length : base + block.positionCount ≤ before.length
  /-- In the range stand the payloads, as the list stores them. -/
  inside : ∀ i < block.positionCount, ∃ v w, block.payload i = .ok v ∧
    before.kind.store v = some w ∧ after.get? (base + i) = some w
  /-- Outside the range nothing changes. -/
  outside : ∀ i, ¬ (base ≤ i ∧ i < base + block.positionCount) → after.get? i = before.get? i

/-- Overwriting the array behind a list with the stored payloads of a block. -/
theorem copied_of_overwrite {before after : FlatList} {block : Block} {base : Nat}
    {xs ys zs : Array α} {wrap : α → Value} (h : overwrite xs base ys = .ok zs)
    (hkind : after.kind = before.kind)
    (hxs : before.length = xs.size ∧ ∀ i, before.get? i = xs[i]?.map wrap)
    (hzs : after.length = zs.size ∧ ∀ i, after.get? i = zs[i]?.map wrap)
    (hcount : block.positionCount = ys.size)
    (hstore : ∀ i (hi : i < ys.size), ∃ v, block.payload i = .ok v ∧
      before.kind.store v = some (wrap ys[i])) :
    before.Copied block base after := by
  refine ⟨hkind, ?_, ?_, ?_, ?_⟩
  · rw [hxs.1, hzs.1, size_overwrite h]
  · rw [hcount, hxs.1]
    exact (overwrite_eq_ok_iff.1 h).2.1
  · intro i hi
    rw [hcount] at hi
    obtain ⟨v, hv, hw⟩ := hstore i hi
    refine ⟨v, _, hv, hw, ?_⟩
    rw [hzs.2, getElem?_overwrite_add h hi]
    rfl
  · intro i hi
    rw [hcount] at hi
    rw [hzs.2, getElem?_overwrite h, if_neg hi, hxs.2]

/-- **A copy that succeeds stores the payloads of the block and changes nothing
else.** -/
theorem copyBlock_copied {before after : FlatList} {block : Block} {base : Nat}
    (h : before.copyBlock block base = .ok after) : before.Copied block base after := by
  unfold copyBlock at h
  split at h
  · next xs c =>
    obtain ⟨zs, hzs, rfl⟩ := Result.map_eq_ok_iff.1 h
    refine copied_of_overwrite hzs rfl ⟨rfl, fun _ => rfl⟩ ⟨rfl, fun _ => rfl⟩ rfl ?_
    intro i hi
    exact ⟨.int c.values[i], by rw [Block.payload, FixedColumn.get_of_lt hi]; rfl, rfl⟩
  · next xs c =>
    obtain ⟨zs, hzs, rfl⟩ := Result.map_eq_ok_iff.1 h
    refine copied_of_overwrite hzs rfl ⟨rfl, fun _ => rfl⟩ ⟨rfl, fun _ => rfl⟩ rfl ?_
    intro i hi
    exact ⟨.long c.values[i], by rw [Block.payload, FixedColumn.get_of_lt hi]; rfl, rfl⟩
  · next xs c =>
    obtain ⟨zs, hzs, rfl⟩ := Result.map_eq_ok_iff.1 h
    refine copied_of_overwrite hzs rfl ⟨rfl, fun _ => rfl⟩ ⟨rfl, fun _ => rfl⟩
      (Array.size_map ..).symm ?_
    intro i hi
    -- This is the pair of different widths: the integers are copied once they are widened.
    rw [Array.size_map] at hi
    refine ⟨.int c.values[i], by rw [Block.payload, FixedColumn.get_of_lt hi]; rfl, ?_⟩
    rw [Array.getElem_map]
    rfl
  · next xs c =>
    obtain ⟨zs, hzs, rfl⟩ := Result.map_eq_ok_iff.1 h
    refine copied_of_overwrite hzs rfl ⟨rfl, fun _ => rfl⟩ ⟨rfl, fun _ => rfl⟩ rfl ?_
    intro i hi
    exact ⟨.double c.values[i], by rw [Block.payload, FixedColumn.get_of_lt hi]; rfl, rfl⟩
  · cases h

end FlatList

end Columnar
