import Columnar.Size

/-!
# Tables of offsets

The table of an index lists, for each chunk, how many rows come before it, and
closes with the number of all rows.  As a function of the numbers of rows it is
the list of their partial sums, which is what everything else about the table
is derived from: its entries never decrease, and two entries are equal exactly
if the chunks between them are empty.

## Main definitions

* `offsetTable` — the partial sums of a list of counts.

## Main results

* `getElem?_offsetTable` — an entry is the sum of the counts before it.
* `offsetTable_append` — more counts extend the table by moved-up entries.
* `exists_take_le_lt` — every number below the sum of all counts falls inside
  exactly one of them.
-/

namespace Columnar

namespace Size

/-! ### Sums -/

@[simp] theorem total_nil : total [] = 0 := rfl

@[simp] theorem total_cons (n : Nat) (ns : List Nat) : total (n :: ns) = n + total ns := rfl

@[simp] theorem total_append (ms ns : List Nat) : total (ms ++ ns) = total ms + total ns := by
  induction ms with
  | nil => simp
  | cons m ms ih => rw [List.cons_append, total_cons, total_cons, ih, Nat.add_assoc]

/-- Taking one count more adds that count. -/
theorem total_take_succ {ns : List Nat} {i n : Nat} (h : ns[i]? = some n) :
    total (ns.take (i + 1)) = total (ns.take i) + n := by
  rw [List.take_add_one, h, total_append]
  simp

theorem total_take_le_total (ns : List Nat) (i : Nat) : total (ns.take i) ≤ total ns := by
  have h : total (ns.take i) + total (ns.drop i) = total ns := by
    rw [← total_append, List.take_append_drop]
  omega

theorem total_take_le_total_take (ns : List Nat) {i j : Nat} (h : i ≤ j) :
    total (ns.take i) ≤ total (ns.take j) := by
  have := total_take_le_total (ns.take j) i
  rwa [List.take_take, Nat.min_eq_left h] at this

/-- A count lies between the sum before it and any sum after it. -/
theorem total_take_add_le {ns : List Nat} {i j n : Nat} (h : ns[i]? = some n) (hij : i < j) :
    total (ns.take i) + n ≤ total (ns.take j) := by
  rw [← total_take_succ h]
  exact total_take_le_total_take ns hij

theorem total_le_length_mul {ns : List Nat} {bound : Nat} (h : ∀ n ∈ ns, n ≤ bound) :
    total ns ≤ ns.length * bound := by
  induction ns with
  | nil => simp
  | cons n ns ih =>
    have hn : n ≤ bound := h n List.mem_cons_self
    have hns : total ns ≤ ns.length * bound := ih fun k hk => h k (List.mem_cons_of_mem _ hk)
    rw [total_cons, List.length_cons, Nat.succ_mul]
    omega

/-- **Every number below the sum of all counts falls inside one of them.** -/
theorem exists_take_le_lt : ∀ (ns : List Nat) {p : Nat}, p < total ns →
    ∃ i n, ns[i]? = some n ∧ total (ns.take i) ≤ p ∧ p < total (ns.take i) + n := by
  intro ns
  induction ns with
  | nil => intro p h; simp at h
  | cons n ns ih =>
    intro p h
    -- The number falls inside the first count or, less that count, inside a later one.
    rcases Nat.lt_or_ge p n with hp | hp
    · exact ⟨0, n, rfl, Nat.zero_le _, by simpa using hp⟩
    · obtain ⟨i, k, hk, hle, hlt⟩ := ih (p := p - n) (by rw [total_cons] at h; omega)
      refine ⟨i + 1, k, hk, ?_, ?_⟩ <;> rw [List.take_succ_cons, total_cons] <;> omega

/-- The count a number falls inside is the only one. -/
theorem take_le_lt_unique {ns : List Nat} {i j m n p : Nat} (hi : ns[i]? = some m)
    (hj : ns[j]? = some n) (hile : total (ns.take i) ≤ p) (hilt : p < total (ns.take i) + m)
    (hjle : total (ns.take j) ≤ p) (hjlt : p < total (ns.take j) + n) : i = j := by
  -- Of two counts, the earlier one ends before the later one begins.
  rcases Nat.lt_trichotomy i j with h | h | h
  · have := total_take_add_le hi h
    omega
  · exact h
  · have := total_take_add_le hj h
    omega

end Size

/-! ### The table -/

/-- The partial sums of a list of counts, from a given number on. -/
def offsetTable (start : Nat) : List Nat → List Nat
  | [] => [start]
  | n :: ns => start :: offsetTable (start + n) ns

@[simp] theorem offsetTable_nil (start : Nat) : offsetTable start [] = [start] := rfl

@[simp] theorem offsetTable_cons (start n : Nat) (ns : List Nat) :
    offsetTable start (n :: ns) = start :: offsetTable (start + n) ns := rfl

@[simp] theorem length_offsetTable (start : Nat) (ns : List Nat) :
    (offsetTable start ns).length = ns.length + 1 := by
  induction ns generalizing start with
  | nil => rfl
  | cons n ns ih => rw [offsetTable_cons, List.length_cons, ih, List.length_cons]

/-- **An entry is the sum of the counts before it.** -/
theorem getElem?_offsetTable {start : Nat} {ns : List Nat} {i : Nat} (h : i ≤ ns.length) :
    (offsetTable start ns)[i]? = some (start + Size.total (ns.take i)) := by
  induction ns generalizing start i with
  | nil =>
    obtain rfl : i = 0 := by simpa using h
    simp
  | cons n ns ih =>
    cases i with
    | zero => simp
    | succ i =>
      rw [offsetTable_cons, List.getElem?_cons_succ, ih (by simpa using h), List.take_succ_cons,
        Size.total_cons, Nat.add_assoc]

/-- No entry is more than the sum of all counts. -/
theorem le_of_mem_offsetTable {start k : Nat} {ns : List Nat} (h : k ∈ offsetTable start ns) :
    k ≤ start + Size.total ns := by
  obtain ⟨i, hi⟩ := List.getElem?_of_mem h
  obtain ⟨hlt, -⟩ := List.getElem?_eq_some_iff.1 hi
  rw [length_offsetTable] at hlt
  rw [getElem?_offsetTable (by omega)] at hi
  have hle := Size.total_take_le_total ns i
  have heq := Option.some.inj hi
  omega

theorem getLast?_offsetTable (start : Nat) (ns : List Nat) :
    (offsetTable start ns).getLast? = some (start + Size.total ns) := by
  rw [List.getLast?_eq_getElem?, length_offsetTable, Nat.add_sub_cancel,
    getElem?_offsetTable (Nat.le_refl _), List.take_length]

/-- A table that starts later has all its entries moved up. -/
theorem map_add_offsetTable (start base : Nat) (ns : List Nat) :
    (offsetTable start ns).map (· + base) = offsetTable (start + base) ns := by
  induction ns generalizing start with
  | nil => rfl
  | cons n ns ih => rw [offsetTable_cons, List.map_cons, ih, offsetTable_cons, Nat.add_right_comm]

/-- **More counts extend the table** by the entries of their own table after the
first, moved up by what was counted before. -/
theorem offsetTable_append (start : Nat) (ms ns : List Nat) :
    offsetTable start (ms ++ ns) =
      offsetTable start ms ++ (offsetTable (start + Size.total ms) ns).drop 1 := by
  induction ms generalizing start with
  | nil => cases ns <;> simp
  | cons m ms ih =>
    rw [List.cons_append, offsetTable_cons, ih, offsetTable_cons, List.cons_append,
      Size.total_cons, Nat.add_assoc]

end Columnar
