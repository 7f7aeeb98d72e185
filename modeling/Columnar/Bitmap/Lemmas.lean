import Columnar.Bitmap.Basic

/-!
# What the operations on bitmaps do to the bits

Every operation is described by the answers of `Bitmap.bit` after it, so that
nothing further on has to look at the words.

## Main results

* `bit_put` — writing a bit changes that bit alone.
* `bit_putRange` — setting a range sets the bits in it and no others.
-/

namespace Columnar.Bitmap

/-! ### Single bits of a word -/

/-- A mask has the one bit that it is made for. -/
theorem getLsbD_mask (i j : Nat) (hj : j < 64) :
    (1#64 <<< i).getLsbD j = decide (j = i) := by
  rw [BitVec.getLsbD_shiftLeft]
  by_cases h : j = i
  · subst h; simp [hj]
  · by_cases hlt : j < i
    · simp [hlt]; omega
    · have : j - i ≠ 0 := by omega
      simp [hj, h, hlt, BitVec.getLsbD_one, this]

/-- Setting a bit of a word. -/
theorem getLsbD_or_mask (w : BitVec 64) (i j : Nat) (hj : j < 64) :
    (w ||| 1#64 <<< i).getLsbD j = (decide (j = i) || w.getLsbD j) := by
  rw [BitVec.getLsbD_or, getLsbD_mask i j hj, Bool.or_comm]

/-- Clearing a bit of a word. -/
theorem getLsbD_and_not_mask (w : BitVec 64) (i j : Nat) (hj : j < 64) :
    (w &&& ~~~(1#64 <<< i)).getLsbD j = (!decide (j = i) && w.getLsbD j) := by
  rw [BitVec.getLsbD_and, BitVec.getLsbD_not, getLsbD_mask i j hj, decide_eq_true hj,
    Bool.true_and, Bool.and_comm]

/-- A bitmap with one word replaced answers for the bits of that word. -/
theorem bit_set_word (m : Bitmap) (i j : Nat) (w : BitVec 64) (n : Nat)
    (h : (m.words.set (i / 64) w).items.size = (m.length + 63) / 64) (hi : i < m.length) :
    bit { m with words := m.words.set (i / 64) w, ones := n, words_size := h } j =
      if j / 64 = i / 64 then w.getLsbD (j % 64) else m.bit j := by
  have hw : i / 64 < m.words.items.size := by have := m.words_size; omega
  unfold bit
  by_cases hq : j / 64 = i / 64
  · simp [hq, hw]
  · simp [hq, Array.getElem?_setIfInBounds_ne (Ne.symm hq)]

/-! ### Writing -/

@[simp] theorem length_put (m : Bitmap) (i : Nat) (v : Bool) : (m.put i v).length = m.length := by
  unfold put
  split
  · rfl
  · dsimp only
    split
    · rfl
    · split <;> rfl

/-- Writing a bit changes that bit alone. -/
theorem bit_put (m : Bitmap) (i j : Nat) (v : Bool) (hi : i < m.length) :
    (m.put i v).bit j = if j = i then v else m.bit j := by
  have hw : i / 64 < m.words.items.size := by have := m.words_size; omega
  have hword : m.words.items[i / 64]? = some m.words.items[i / 64] := Array.getElem?_eq_getElem hw
  have hj := Nat.mod_lt j (show 0 < 64 by omega)
  have hshare : j / 64 = i / 64 → m.bit j = m.words.items[i / 64].getLsbD (j % 64) := fun hq => by
    simp [bit, hq, hword]
  have hplace : j = i ↔ j / 64 = i / 64 ∧ j % 64 = i % 64 := by omega
  unfold put
  rw [hword]
  simp only [hplace]
  split
  · rename_i hset
    simp only [Bool.and_eq_true, Bool.not_eq_true'] at hset
    rw [bit_set_word m i j _ _ _ hi, getLsbD_or_mask _ _ _ hj]
    grind
  · split
    · rename_i hclear
      simp only [Bool.and_eq_true, Bool.not_eq_true'] at hclear
      rw [bit_set_word m i j _ _ _ hi, getLsbD_and_not_mask _ _ _ hj]
      grind
    · -- The bit is already what it should be.
      cases v <;> grind

@[simp] theorem capacity_put (m : Bitmap) (i : Nat) (v : Bool) :
    (m.put i v).words.capacity = m.words.capacity := by
  unfold put
  split
  · rfl
  · dsimp only
    split
    · rfl
    · split <;> rfl

@[simp] theorem length_putRange (m : Bitmap) (start stop : Nat) :
    (m.putRange start stop).length = m.length := by
  unfold putRange
  generalize List.range' start (stop - start) = places
  induction places generalizing m with
  | nil => rfl
  | cons i rest ih => rw [List.foldl_cons, ih, length_put]

@[simp] theorem capacity_putRange (m : Bitmap) (start stop : Nat) :
    (m.putRange start stop).words.capacity = m.words.capacity := by
  unfold putRange
  generalize List.range' start (stop - start) = places
  induction places generalizing m with
  | nil => rfl
  | cons i rest ih => rw [List.foldl_cons, ih, capacity_put]

/-- Writing several bits sets those and no others. -/
theorem bit_foldl_put (m : Bitmap) (places : List Nat) (h : ∀ i ∈ places, i < m.length) (j : Nat) :
    (places.foldl (fun m i => m.put i true) m).bit j = (decide (j ∈ places) || m.bit j) := by
  induction places generalizing m with
  | nil => simp
  | cons i rest ih =>
    have hi : i < m.length := h i (List.mem_cons_self ..)
    have hrest : ∀ k ∈ rest, k < (m.put i true).length := fun k hk => by
      simpa using h k (List.mem_cons_of_mem _ hk)
    rw [List.foldl_cons, ih _ hrest, bit_put m i j true hi]
    by_cases hji : j = i
    · simp [hji]
    · simp [hji]

/-- Setting a range sets the bits in it and no others. -/
theorem bit_putRange (m : Bitmap) (start stop : Nat) (h : stop ≤ m.length) (j : Nat) :
    (m.putRange start stop).bit j = (decide (start ≤ j ∧ j < stop) || m.bit j) := by
  unfold putRange
  rw [bit_foldl_put]
  · congr 1
    simp only [List.mem_range'_1, decide_eq_decide]
    omega
  · intro i hi
    simp only [List.mem_range'_1] at hi
    omega

@[simp] theorem length_push (m : Bitmap) (v : Bool) : (m.push v).length = m.length + 1 := by
  cases v <;> simp [push, pushClear]

end Columnar.Bitmap
