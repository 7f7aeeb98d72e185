import Columnar.Outcome
import Columnar.Proofs.BitList

/-!
# Writing to bitmaps

Every write to a bitmap is a write to the list of its bits: pushing adds an
element, and writing a bit or a range replaces elements.  A write past the end
fails and changes nothing.  After any writes the bitmap therefore stands for the
list that the same writes make of a list, and as its words hold nothing else, two
bitmaps are equal just in case they stand for one list, however they were made
and whatever room was set aside for them.

## Main definitions

* `Bitmap.Write`, `Bitmap.run` — writes, and what they do to a bitmap.
* `Bitmap.Write.onList`, `Bitmap.written` — what they do to a list.
* `Bitmap.Fresh` — a bitmap just made, with the list it stands for.
* `Bitmap.Answers` — every call is answered as the list would.

## Main results

* `Bitmap.Holds.write`, `Bitmap.Holds.run` — one write, and any number of them.
* `Bitmap.Holds.beq_iff` — **bitmaps are equal if their lists are.**
* `Bitmap.writes_follow_lists` — **a bitmap does what the list does.**
-/

namespace Columnar.Bitmap

/-! ### Definitions -/

/-- A change of a bitmap. -/
inductive Write
  | push (value : Bool)
  | set (index : Nat) (value : Bool)
  /-- Sets the bits from `start` up to, but not including, `stop`. -/
  | setRange (start stop : Nat)
  deriving DecidableEq, Repr

/-- What a write does to a list of bits, if it does not go past the end.  A range
that ends past the end is refused even if it is empty. -/
def Write.onList (bits : List Bool) : Write → Option (List Bool)
  | push value => some (bits ++ [value])
  | set index value => if index < bits.length then some (bits.set index value) else none
  | setRange start stop =>
    if stop ≤ bits.length then
      some (bits.mapIdx fun i bit => bit || decide (start ≤ i ∧ i < stop))
    else none

/-- What some writes make of a list; those that are refused are passed over. -/
def written (bits : List Bool) (writes : List Write) : List Bool :=
  writes.foldl (fun bits w => (w.onList bits).getD bits) bits

/-- What a write does to a bitmap. -/
def write (m : Bitmap) : Write → Outcome Bitmap
  | .push value => .done (m.push value)
  | .set index value => .ofResult m (m.set index value)
  | .setRange start stop => .ofResult m (m.setRange start stop)

/-- What writes do to a bitmap, whether they succeed or not. -/
def run (m : Bitmap) (writes : List Write) : Bitmap × List (Outcome Bitmap) :=
  Outcome.runAll write m writes

/-- A bitmap that was just made stands for a list of clear bits. -/
inductive Fresh : Bitmap → List Bool → Prop
  | empty : Fresh .empty []
  | withCapacity (bits : Nat) : Fresh (.withCapacity bits) []
  | clear (bits : Nat) : Fresh (.clear bits) (List.replicate bits false)

variable {m n : Bitmap} {bits others : List Bool}

theorem Fresh.holds (h : m.Fresh bits) : m.Holds bits := by
  cases h with
  | empty => exact holds_withCapacity 0
  | withCapacity count => exact holds_withCapacity count
  | clear count => exact holds_clear count

/-! ### Ranges -/

/-- Setting several bits one after the other sets those and leaves the rest. -/
theorem getElem?_foldl_set : ∀ (places : List Nat) (bits : List Bool) (i : Nat),
    (places.foldl (fun bits place => bits.set place true) bits)[i]? =
      bits[i]?.map fun bit => bit || decide (i ∈ places) := by
  intro places
  induction places with
  | nil => intro bits i; simp
  | cons place rest ih =>
    intro bits i
    rw [List.foldl_cons, ih, List.getElem?_set]
    by_cases hi : place = i
    · subst hi
      by_cases hlt : place < bits.length
      · simp [hlt]
      · simp [hlt]
    · simp [hi, Ne.symm hi]

/-- The bits of a range are set in the list. -/
theorem foldl_set_range' (bits : List Bool) (start stop : Nat) :
    (List.range' start (stop - start)).foldl (fun bits place => bits.set place true) bits =
      bits.mapIdx fun i bit => bit || decide (start ≤ i ∧ i < stop) := by
  refine List.ext_getElem? fun i => ?_
  rw [getElem?_foldl_set, List.getElem?_mapIdx]
  have hmem : i ∈ List.range' start (stop - start) ↔ start ≤ i ∧ i < stop := by
    rw [List.mem_range'_1]
    omega
  simp only [hmem]

theorem Holds.foldl_put : ∀ {places : List Nat} {m : Bitmap} {bits : List Bool}, m.Holds bits →
    (∀ place ∈ places, place < bits.length) →
      (places.foldl (fun m place => m.put place true) m).Holds
        (places.foldl (fun bits place => bits.set place true) bits) := by
  intro places
  induction places with
  | nil => intro m bits h _; exact h
  | cons place rest ih =>
    intro m bits h hplaces
    refine ih (h.put (hplaces place List.mem_cons_self) true) fun other hother => ?_
    rw [List.length_set]
    exact hplaces other (List.mem_cons_of_mem _ hother)

/-- **Setting a range sets the elements in it.** -/
theorem Holds.putRange (h : m.Holds bits) {start stop : Nat} (hstop : stop ≤ bits.length) :
    (m.putRange start stop).Holds
      (bits.mapIdx fun i bit => bit || decide (start ≤ i ∧ i < stop)) := by
  rw [← foldl_set_range']
  refine h.foldl_put fun place hplace => ?_
  rw [List.mem_range'_1] at hplace
  omega

/-! ### Writes -/

theorem set_of_lt {i : Nat} (hi : i < m.length) (value : Bool) :
    m.set i value = .ok (m.put i value) := by
  rw [set, decide_eq_true hi]
  rfl

theorem set_of_le {i : Nat} (hi : m.length ≤ i) (value : Bool) :
    m.set i value = .error (.misused (.bitOutOfBounds i m.length)) := by
  rw [set, decide_eq_false (Nat.not_lt.2 hi)]
  rfl

theorem setRange_of_le {stop : Nat} (h : stop ≤ m.length) (start : Nat) :
    m.setRange start stop = .ok (m.putRange start stop) := by
  rw [setRange, decide_eq_true h]
  rfl

theorem setRange_of_lt {stop : Nat} (h : m.length < stop) (start : Nat) :
    m.setRange start stop = .error (.misused (.rangeOutOfBounds stop m.length)) := by
  rw [setRange, decide_eq_false (Nat.not_le.2 h)]
  rfl

/-- **A write does to the bitmap what it does to the list**, and fails without
effect where the list has no place for it. -/
theorem Holds.write (h : m.Holds bits) (w : Write) :
    (∃ after other, w.onList bits = some after ∧ m.write w = .done other ∧ other.Holds after) ∨
      ∃ failure, w.onList bits = none ∧ m.write w = .failed m failure := by
  -- The bound is checked before anything is written, so a failure changes nothing.
  cases w with
  | push value => exact Or.inl ⟨_, _, rfl, rfl, h.push value⟩
  | set index value =>
    by_cases hindex : index < bits.length
    · have hset : m.set index value = .ok (m.put index value) :=
        set_of_lt (h.length_eq ▸ hindex) value
      refine Or.inl ⟨_, _, if_pos hindex, ?_, h.put hindex value⟩
      rw [Bitmap.write, hset]
      rfl
    · have hset := set_of_le (m := m) (h.length_eq ▸ Nat.not_lt.1 hindex) value
      refine Or.inr ⟨.misused (.bitOutOfBounds index m.length), if_neg hindex, ?_⟩
      rw [Bitmap.write, hset]
      rfl
  | setRange start stop =>
    by_cases hstop : stop ≤ bits.length
    · have hrange := setRange_of_le (h.length_eq ▸ hstop) start
      refine Or.inl ⟨_, _, if_pos hstop, ?_, h.putRange hstop⟩
      rw [Bitmap.write, hrange]
      rfl
    · have hrange := setRange_of_lt (h.length_eq ▸ Nat.not_le.1 hstop) start
      refine Or.inr ⟨.misused (.rangeOutOfBounds stop m.length), if_neg hstop, ?_⟩
      rw [Bitmap.write, hrange]
      rfl

/-- **After any writes the bitmap stands for the list that they make.** -/
theorem Holds.run : ∀ (writes : List Write) {m : Bitmap} {bits : List Bool}, m.Holds bits →
    (m.run writes).1.Holds (written bits writes) := by
  intro writes
  induction writes with
  | nil => intro m bits h; exact h
  | cons w rest ih =>
    intro m bits h
    show ((m.write w).state.run rest).1.Holds (written ((w.onList bits).getD bits) rest)
    rcases h.write w with ⟨after, other, hlist, hwrite, hafter⟩ | ⟨failure, hlist, hwrite⟩
    · rw [hlist, hwrite]
      exact ih hafter
    · rw [hlist, hwrite]
      exact ih h

/-! ### Reading -/

theorem Holds.toList_eq (h : m.Holds bits) : m.toList = bits := by
  refine List.ext_getElem? fun i => ?_
  rw [toList, List.getElem?_map, h.length_eq]
  by_cases hi : i < bits.length
  · rw [List.getElem?_range hi, List.getElem?_eq_getElem hi, Option.map_some, h.bit_eq,
      List.getElem?_eq_getElem hi]
    rfl
  · rw [List.getElem?_eq_none (Nat.not_lt.1 hi), List.getElem?_eq_none]
    · rfl
    · rw [List.length_range]
      exact Nat.not_lt.1 hi

/-! ### Equality -/

/-- The bits of a word are those that begin where the words before it end. -/
theorem bit_of_word {k j : Nat} (hk : k < m.words.items.size) (hj : j < 64) :
    m.bit (64 * k + j) = m.words.items[k].getLsbD j := by
  have hquotient : (64 * k + j) / 64 = k := by omega
  have hremainder : (64 * k + j) % 64 = j := by omega
  unfold bit
  rw [hquotient, hremainder, Array.getElem?_eq_getElem hk]

/-- Bitmaps of one length with the same bits have the same words. -/
theorem words_eq_of_bits_eq (hlength : m.length = n.length) (hbits : ∀ i, m.bit i = n.bit i) :
    m.words.items = n.words.items := by
  have hsize : m.words.items.size = n.words.items.size := by
    rw [m.words_size, n.words_size, hlength]
  refine Array.ext hsize fun k hk hk' => BitVec.eq_of_getLsbD_eq fun j hj => ?_
  rw [← bit_of_word hk hj, ← bit_of_word hk' hj]
  exact hbits _

theorem beq_iff : (m == n) = true ↔
    m.words.items = n.words.items ∧ m.length = n.length ∧ m.ones = n.ones := by
  show (m.words.items == n.words.items && m.length == n.length && m.ones == n.ones) = true ↔ _
  simp only [Bool.and_eq_true, beq_iff_eq, and_assoc]

/-- **Bitmaps are equal if they stand for one list**, whatever their room. -/
theorem Holds.beq_iff (hm : m.Holds bits) (hn : n.Holds others) :
    (m == n) = true ↔ bits = others := by
  rw [Bitmap.beq_iff]
  constructor
  · rintro ⟨hwords, hlength, -⟩
    rw [← hm.toList_eq, ← hn.toList_eq]
    have hbits : m.bit = n.bit := by
      funext i
      unfold bit
      rw [hwords]
    rw [toList, toList, hbits, hlength]
  · rintro rfl
    have hlength : m.length = n.length := hm.length_eq.trans hn.length_eq.symm
    have hbits : ∀ i, m.bit i = n.bit i := fun i => (hm.bit_eq i).trans (hn.bit_eq i).symm
    exact ⟨words_eq_of_bits_eq hlength hbits, hlength, hm.ones_eq.trans hn.ones_eq.symm⟩

/-! ### Bitmaps and lists -/

/-- The bitmap answers every call as the list does. -/
structure Answers (m : Bitmap) (bits : List Bool) : Prop where
  length_eq : m.length = bits.length
  toList_eq : m.toList = bits
  get_eq : ∀ i value, bits[i]? = some value → m.get i = .ok value
  get_fails : ∀ i, bits.length ≤ i → ∃ failure, m.get i = .error failure
  ones_eq : m.ones = bits.count true
  any_iff : m.any = true ↔ true ∈ bits
  /-- A write that the list has a place for succeeds, and changes the bits like it. -/
  write_done : ∀ w after, w.onList bits = some after →
    (m.write w).status = .ok () ∧ (m.write w).state.toList = after
  /-- Any other write fails and leaves the bitmap as it was. -/
  write_failed : ∀ w, w.onList bits = none → ∃ failure, m.write w = .failed m failure

theorem Holds.answers (h : m.Holds bits) : m.Answers bits where
  length_eq := h.length_eq
  toList_eq := h.toList_eq
  get_eq _ _ hvalue := h.get_eq hvalue
  get_fails _ hi := ⟨_, get_of_le (h.length_eq ▸ hi)⟩
  ones_eq := h.ones_eq
  any_iff := h.any_iff
  write_done w after hafter := by
    rcases h.write w with ⟨other, written, hother, hwrite, hholds⟩ | ⟨_, hnone, _⟩
    · obtain rfl : other = after := Option.some.inj (hother.symm.trans hafter)
      rw [hwrite]
      exact ⟨rfl, hholds.toList_eq⟩
    · rw [hnone] at hafter
      cases hafter
  write_failed w hnone := by
    rcases h.write w with ⟨_, _, hsome, _, _⟩ | ⟨failure, _, hwrite⟩
    · rw [hnone] at hsome
      cases hsome
    · exact ⟨failure, hwrite⟩

/-- **A bitmap does what the list of its bits does.**  However it was made and
written to, with the writes that failed passed over, it answers like the list that
the writes make, and bitmaps are equal just in case they have come to one list. -/
theorem writes_follow_lists {start : Bitmap} (h : start.Fresh bits) (writes : List Write) :
    (start.run writes).1.Answers (written bits writes) ∧
      ∀ {other : Bitmap} {others : List Bool}, other.Fresh others → ∀ later : List Write,
        ((start.run writes).1 == (other.run later).1) = true ↔
          written bits writes = written others later := by
  have hholds : (start.run writes).1.Holds (written bits writes) := h.holds.run writes
  refine ⟨hholds.answers, fun hother later => ?_⟩
  exact hholds.beq_iff (hother.holds.run later)

/-- Clear bits with one pushed over the end of the word, two set across it, and
writes refused that would reach the bit after, equal pushed ones with room to spare. -/
theorem writes_follow_lists_across_words :
    Fresh (clear 64) (List.replicate 64 false) ∧ Fresh (withCapacity 500) [] ∧
      (let writes := [.set 64 true, .push false, .setRange 63 66, .setRange 63 65, .setRange 9 9]
       let pushes := (List.replicate 63 false ++ [true, true]).map Write.push
       ((clear 64).run writes).1.toList = List.replicate 63 false ++ [true, true] ∧
         ((clear 64).run writes).1.ones = 2 ∧
           ((clear 64).run writes).1 == ((withCapacity 500).run pushes).1) := by
  obtain ⟨hanswers, hequal⟩ := writes_follow_lists (.clear 64)
    [.set 64 true, .push false, .setRange 63 66, .setRange 63 65, .setRange 9 9]
  refine ⟨.clear 64, .withCapacity 500, ?_, ?_, ?_⟩
  · rw [hanswers.toList_eq]
    rfl
  · rw [hanswers.ones_eq]
    rfl
  · exact (hequal (.withCapacity 500) _).2 (by decide +kernel)

end Columnar.Bitmap
