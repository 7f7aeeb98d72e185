import Columnar.Buffer

/-!
# The room of a buffer

A buffer that grows keeps the room it began with until it is full, and has never more
than twice the room it needs, nor less than four places, once it had to be enlarged.

## Main definitions

* `Buffer.Grows` — a buffer comes from another one by adding elements at the end.
* `Buffer.RoomFrom` — the room of a buffer that began empty, with given room.

## Main results

* `Buffer.RoomFrom.grows` — **the room of a buffer follows from what it holds.**
-/

namespace Columnar

namespace Buffer

variable {α : Type} {a b c : Buffer α} {initial : Nat}

/-! ### Buffers that grow -/

/-- `a.Grows b` says that `b` comes from `a` by adding elements at the end, in one go or
in several. -/
inductive Grows (a : Buffer α) : Buffer α → Prop
  | refl : Grows a a
  | append {b : Buffer α} (more : Array α) : Grows a b → Grows a (b.append more)

theorem push_eq_append (b : Buffer α) (x : α) : b.push x = b.append #[x] := by
  simp [push, append]

theorem grows_append (b : Buffer α) (more : Array α) : b.Grows (b.append more) :=
  .append more .refl

theorem grows_push (b : Buffer α) (x : α) : b.Grows (b.push x) :=
  push_eq_append b x ▸ b.grows_append #[x]

theorem Grows.trans (h : a.Grows b) (h' : b.Grows c) : a.Grows c := by
  induction h' with
  | refl => exact h
  | append more _ ih => exact ih.append more

/-- Room is never given back. -/
theorem le_grow_capacity (capacity size extra : Nat) : capacity ≤ grow capacity size extra := by
  unfold grow
  split <;> omega

theorem Grows.capacity_le (h : a.Grows b) : a.capacity ≤ b.capacity := by
  induction h with
  | refl => exact Nat.le_refl _
  | append more _ ih => exact Nat.le_trans ih (le_grow_capacity ..)

/-! ### The room of a buffer -/

/-- The room of a buffer that began empty, with room for so many elements. -/
structure RoomFrom (initial : Nat) (b : Buffer α) : Prop where
  /-- As long as the elements fit, the room is what was set aside. -/
  capacity_eq : b.size ≤ initial → b.capacity = initial
  capacity_le : b.capacity ≤ max (max initial (2 * b.size)) 4

theorem roomFrom_withCapacity (initial : Nat) :
    (withCapacity initial : Buffer α).RoomFrom initial where
  capacity_eq _ := rfl
  capacity_le := Nat.le_trans (Nat.le_max_left ..) (Nat.le_max_left ..)

/-- A buffer that is enlarged had less room than it then needs, so that twice that room
is still not more than twice what it needs. -/
theorem RoomFrom.append (h : b.RoomFrom initial) (more : Array α) :
    (b.append more).RoomFrom initial := by
  have hroom := b.size_le_capacity
  have hle := h.capacity_le
  have hsize : (b.append more).size = b.size + more.size := Array.size_append ..
  have hgrow : (b.append more).capacity = grow b.capacity b.size more.size := rfl
  constructor
  · intro hfits
    have hcapacity := h.capacity_eq (by omega)
    rw [hgrow, grow, if_pos (by omega), hcapacity]
  · rw [hgrow, hsize, grow]
    split <;> omega

/-- **However a buffer grew, its room follows from what it began with and what it
holds**, up to a factor of two. -/
theorem RoomFrom.grows (h : a.RoomFrom initial) (hgrows : a.Grows b) : b.RoomFrom initial := by
  induction hgrows with
  | refl => exact h
  | append more _ ih => exact ih.append more

end Buffer

end Columnar
