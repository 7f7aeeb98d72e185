import Columnar.Proofs.KeySchema

/-!
# Copying in place

A copy into a flat list goes over its range place by place.  That would leave half a
copy behind where the range runs past the end, so the range is checked as a whole
before the first place is written.  Behind the check no write can fail, and the copy
either replaces the range by the payloads of the block or does nothing.

## Main definitions

* `FlatList.storeFrom` — writes to the places of an array one after another.
* `FlatList.storeRange`, `FlatList.copyInPlace` — the range is checked first.
* `ListKind.widened` — the form in which a list holds a payload that it takes.

## Main results

* `FlatList.copyInPlace_eq` — **writing place by place is the copy in one go.**
* `FlatList.values_copyBlock` — the elements after a copy.
* `FlatList.copy_replaces_range_or_nothing` — **a copy replaces its range, or fails and
  leaves everything as it was.**
-/

namespace Columnar

/-- A list of 64-bit integers extends the sign of shorter ones.  All other payloads are
kept as they are. -/
def ListKind.widened : ListKind → Value → Value
  | long, .int n => .long n.toInt64
  | _, v => v

/-- The kinds and types that go together. -/
theorem ListKind.takes_iff {kind : ListKind} {type : DataType} : kind.takes type = true ↔
    (kind, type) ∈ [(ListKind.int, DataType.int), (.long, .long), (.long, .int),
      (.double, .double)] := by
  cases kind <;> cases type <;> decide

/-! ### All payloads of a block -/

/-- The payloads of a column of fixed width are the elements of its array. -/
theorem Block.payloads_of_column {α : Type} {block : Block} {c : FixedColumn α} {wrap : α → Value}
    (hcount : block.positionCount = c.values.size)
    (hpayload : ∀ i, block.payload i = wrap <$> c.get i) :
    block.payloads = .ok (c.values.toList.map wrap) := by
  have heach : ∀ i ∈ List.range c.values.size,
      block.payload i = .ok ((c.values[i]?.map wrap).getD .null) := by
    intro i hi
    have hlt : i < c.values.size := List.mem_range.1 hi
    rw [hpayload i, FixedColumn.get_of_lt hlt, Array.getElem?_eq_getElem hlt]
    rfl
  rw [payloads, hcount, Result.mapM_eq_ok_map heach]
  congr 1
  refine List.ext_getElem (by simp) fun i hi _ => ?_
  rw [List.length_map, List.length_range] at hi
  simp [hi]

namespace FlatList

variable {α β : Type} {f : β → α} {xs : Array α} {base : Nat}

/-! ### Place by place -/

/-- Writes elements, each in the form that `f` gives it, to the places from `place` on.
The first place that there is not stops the writing, and what was written stays. -/
def storeFrom (f : β → α) (xs : Array α) (place : Nat) : List β → Outcome (Array α)
  | [] => .done xs
  | y :: ys =>
    if place < xs.size then storeFrom f (xs.setIfInBounds place (f y)) (place + 1) ys
    else .failed xs .outOfBounds

/-- Writes elements to the range that begins at `base`, after a check that all of it is
there. -/
def storeRange (f : β → α) (xs : Array α) (base : Nat) (ys : Array β) : Outcome (Array α) :=
  match Size.add base ys.size with
  | .error failure => .failed xs failure
  | .ok stop => if stop ≤ xs.size then storeFrom f xs base ys.toList else .failed xs .outOfBounds

/-- Copies a block into the list itself. -/
def copyInPlace (list : FlatList) (block : Block) (base : Nat) : Outcome FlatList :=
  match list, block with
  | int xs, .int c => (storeRange id xs base c.values).map int
  | long xs, .long c => (storeRange id xs base c.values).map long
  | long xs, .int c => (storeRange Int32.toInt64 xs base c.values).map long
  | double xs, .double c => (storeRange id xs base c.values).map double
  | l, b => .failed l (.misused (.listType b.type l.kind))

/-- Writing to the place after the first `i` adds to them. -/
theorem take_set_succ (xs : List α) {i : Nat} (h : i < xs.length) (a : α) :
    (xs.set i a).take (i + 1) = xs.take i ++ [a] := by
  rw [List.take_succ_eq_append_getElem (by rw [List.length_set]; exact h), List.getElem_set_self,
    List.take_set_of_le (Nat.le_refl i)]

/-- A range that is there is written to the end. -/
theorem storeFrom_eq_done (f : β → α) : ∀ (ys : List β) (xs : Array α) (place : Nat),
    place + ys.length ≤ xs.size → storeFrom f xs place ys =
      .done (xs.toList.take place ++ ys.map f ++ xs.toList.drop (place + ys.length)).toArray := by
  intro ys
  induction ys with
  | nil => intro xs place _; simp [storeFrom]
  | cons y ys ih =>
    intro xs place hle
    rw [List.length_cons] at hle
    have hlt : place < xs.toList.length := by rw [Array.length_toList]; omega
    rw [storeFrom, if_pos (by omega), ih _ _ (by rw [Array.size_setIfInBounds]; omega),
      Array.toList_setIfInBounds, take_set_succ _ hlt, List.drop_set_of_lt (by omega),
      List.append_assoc (xs.toList.take place), List.singleton_append, List.length_cons,
      List.map_cons, Nat.add_right_comm, Nat.add_assoc place]

/-- An array that has a range replaced, as a list. -/
theorem toList_replaced (xs ys : Array α) (start stop : Nat) :
    (xs.extract 0 start ++ ys ++ xs.extract stop xs.size).toList =
      xs.toList.take start ++ ys.toList ++ xs.toList.drop stop := by
  have hrest : (xs.toList.drop stop).take (xs.size - stop) = xs.toList.drop stop :=
    List.take_of_length_le (Nat.le_of_eq (by rw [List.length_drop, Array.length_toList]))
  simp [hrest]

/-- **Writing place by place behind the check is overwriting in one go**, and does nothing
if that fails. -/
theorem storeRange_eq (f : β → α) (xs : Array α) (base : Nat) (ys : Array β) :
    storeRange f xs base ys = .ofResult xs (overwrite xs base (ys.map f)) := by
  unfold storeRange overwrite
  rw [Array.size_map]
  cases hstop : Size.add base ys.size with
  | error failure => rfl
  | ok stop =>
    obtain ⟨-, rfl⟩ := Size.add_eq_ok_iff.1 hstop
    dsimp only [bind, Except.bind]
    split
    · next hle =>
      rw [storeFrom_eq_done f _ _ _ (by rw [Array.length_toList]; exact hle)]
      refine congrArg Outcome.done (Array.ext' ?_)
      rw [toList_replaced, Array.toList_map, Array.length_toList]
    · rfl

/-- **Copying into the list itself is the copy in one go.** -/
theorem copyInPlace_eq (list : FlatList) (block : Block) (base : Nat) :
    list.copyInPlace block base = .ofResult list (list.copyBlock block base) := by
  -- The loop does not depend on the type of the elements, only on how they are widened.
  have hstore : ∀ {γ δ : Type} (wrap : Array γ → FlatList) (f : δ → γ) (xs : Array γ)
      (ys : Array δ), (storeRange f xs base ys).map wrap =
        .ofResult (wrap xs) (wrap <$> overwrite xs base (ys.map f)) := by
    intro γ δ wrap f xs ys
    rw [storeRange_eq]
    cases overwrite xs base (ys.map f) <;> rfl
  cases list with
  | int xs =>
    cases block with
    | int c => rw [copyInPlace, hstore, Array.map_id]; rfl
    | _ => rfl
  | long xs =>
    cases block with
    | int c => exact hstore long Int32.toInt64 xs c.values
    | long c => rw [copyInPlace, hstore, Array.map_id]; rfl
    | _ => rfl
  | double xs =>
    cases block with
    | double c => rw [copyInPlace, hstore, Array.map_id]; rfl
    | _ => rfl

/-! ### The elements after a copy -/

theorem map_toList_overwrite {xs ys zs : Array α} (h : overwrite xs base ys = .ok zs)
    (wrap : α → Value) : zs.toList.map wrap = (xs.toList.map wrap).take base ++
      ys.toList.map wrap ++ (xs.toList.map wrap).drop (base + ys.size) := by
  obtain ⟨-, -, rfl⟩ := overwrite_eq_ok_iff.1 h
  rw [toList_replaced, List.map_append, List.map_append, List.map_take, List.map_drop]

/-- **After a copy the list holds the payloads of the block in the range, in order, and
what it held everywhere else.** -/
theorem values_copyBlock {list after : FlatList} {block : Block}
    (h : list.copyBlock block base = .ok after) :
    ∃ payloads, block.payloads = .ok payloads ∧ payloads.length = block.positionCount ∧
      after.values = list.values.take base ++ payloads.map list.kind.widened ++
        list.values.drop (base + block.positionCount) := by
  unfold copyBlock at h
  split at h
  · next xs c =>
    obtain ⟨zs, hzs, rfl⟩ := Result.map_eq_ok_iff.1 h
    refine ⟨_, Block.payloads_of_column rfl fun _ => rfl, List.length_map .., ?_⟩
    rw [List.map_map]
    exact map_toList_overwrite hzs .int
  · next xs c =>
    obtain ⟨zs, hzs, rfl⟩ := Result.map_eq_ok_iff.1 h
    refine ⟨_, Block.payloads_of_column rfl fun _ => rfl, List.length_map .., ?_⟩
    rw [List.map_map]
    exact map_toList_overwrite hzs .long
  · next xs c =>
    obtain ⟨zs, hzs, rfl⟩ := Result.map_eq_ok_iff.1 h
    refine ⟨_, Block.payloads_of_column rfl fun _ => rfl, List.length_map .., ?_⟩
    -- The payloads of the block are the integers before they are widened.
    have hlongs := map_toList_overwrite hzs .long
    rw [Array.toList_map, List.map_map, Array.size_map] at hlongs
    rw [List.map_map]
    exact hlongs
  · next xs c =>
    obtain ⟨zs, hzs, rfl⟩ := Result.map_eq_ok_iff.1 h
    refine ⟨_, Block.payloads_of_column rfl fun _ => rfl, List.length_map .., ?_⟩
    rw [List.map_map]
    exact map_toList_overwrite hzs .double
  · cases h

/-- **A copy replaces its range, or fails and leaves the list as it was.**  Writing into
the list place by place does what the copy in one go does.  It succeeds just in case the
kind of the list goes with the type of the block and the range ends within the list, even
if there is nothing to copy.  Then the payloads of the block stand in the range in order,
integers with their sign extended where the list is wider, and everything else is as
before. -/
theorem copy_replaces_range_or_nothing {list : FlatList} (hlist : list.length < Size.limit)
    (block : Block) (base : Nat) :
    list.copyInPlace block base = .ofResult list (list.copyBlock block base) ∧
    ((∃ after, list.copyBlock block base = .ok after) ↔
      (list.kind, block.type) ∈ [(ListKind.int, DataType.int), (.long, .long), (.long, .int),
        (.double, .double)] ∧ base + block.positionCount ≤ list.length) ∧
    (∀ failure, list.copyBlock block base = .error failure →
      list.copyInPlace block base = .failed list failure) ∧
    ∀ after, list.copyBlock block base = .ok after →
      after.kind = list.kind ∧ after.length = list.length ∧
      ∃ payloads, block.payloads = .ok payloads ∧ payloads.length = block.positionCount ∧
        after.values = list.values.take base ++ payloads.map list.kind.widened ++
          list.values.drop (base + block.positionCount) := by
  refine ⟨copyInPlace_eq .., ?_, ?_, ?_⟩
  · rw [exists_copyBlock_iff, ListKind.takes_iff]
    constructor
    · rintro ⟨hpair, -, hle⟩
      exact ⟨hpair, hle⟩
    · rintro ⟨hpair, hle⟩
      exact ⟨hpair, by omega, hle⟩
  · intro failure hfailed
    rw [copyInPlace_eq, hfailed]
    rfl
  · intro after hcopy
    have hcopied := copyBlock_copied hcopy
    exact ⟨hcopied.kind_eq, hcopied.length_eq, values_copyBlock hcopy⟩

/-- A list of four longs takes two integers in its middle.  It does not take them where only
one place is left, nor a block without cells past its end. -/
theorem copy_replaces_range_or_nothing_middle :
    ∃ list pair, FlatList.long #[10, 20, 30, 40] = list ∧
      Block.int ⟨#[-1, 7], .none⟩ = pair ∧ list.length < Size.limit ∧
      (∃ after, list.copyBlock pair 1 = .ok after ∧
        after.values = [.long 10, .long (-1), .long 7, .long 40]) ∧
      (∃ failure, list.copyInPlace pair 3 = .failed list failure) ∧
      ∃ failure, list.copyInPlace (.int ⟨#[], .none⟩) 5 = .failed list failure := by
  refine ⟨_, _, rfl, rfl, ?_⟩
  have hlist : (FlatList.long #[10, 20, 30, 40]).length < Size.limit := by decide
  have hfails : ∀ block base, ¬ base + block.positionCount ≤ 4 →
      ∃ failure, (FlatList.long #[10, 20, 30, 40]).copyInPlace block base =
        .failed (.long #[10, 20, 30, 40]) failure := by
    intro block base hpast
    obtain ⟨-, hcopies, hfailed, -⟩ := copy_replaces_range_or_nothing hlist block base
    cases hcopy : (FlatList.long #[10, 20, 30, 40]).copyBlock block base with
    | error failure => exact ⟨failure, hfailed failure hcopy⟩
    | ok after => exact absurd (hcopies.1 ⟨after, hcopy⟩).2 hpast
  refine ⟨hlist, ?_, hfails _ _ (by decide), hfails _ _ (by decide)⟩
  obtain ⟨-, hcopies, -, hafter⟩ :=
    copy_replaces_range_or_nothing hlist (.int ⟨#[-1, 7], .none⟩) 1
  obtain ⟨after, hcopy⟩ := hcopies.2 ⟨by decide, by decide⟩
  obtain ⟨-, -, payloads, hpayloads, -, hvalues⟩ := hafter after hcopy
  cases hpayloads
  exact ⟨after, hcopy, hvalues⟩

end FlatList

end Columnar
