/-!
# Growable buffers

A buffer is an array together with the room set aside for it.  The room shows
only in the number of bytes a structure says it occupies; two buffers with the
same elements are equal under `==` whatever their room.

When elements do not fit any more, the room is doubled, or raised to what is
needed if that is more, and is never raised to less than four elements.

## Main definitions

* `Buffer` — the elements and the room.
* `Buffer.grow` — the room after adding elements.
* `Buffer.push`, `Buffer.append`, `Buffer.set` — the operations.
-/

namespace Columnar

/-- An array with a capacity. -/
structure Buffer (α : Type) where
  items : Array α
  /-- The number of elements there is room for. -/
  capacity : Nat
  size_le_capacity : items.size ≤ capacity

namespace Buffer

variable {α : Type}

instance [BEq α] : BEq (Buffer α) where
  beq a b := a.items == b.items

def size (b : Buffer α) : Nat := b.items.size

/-- An empty buffer with room for the given number of elements. -/
def withCapacity (capacity : Nat) : Buffer α := ⟨#[], capacity, Nat.zero_le _⟩

/-- A buffer that holds one element a number of times, without spare room. -/
def replicate (count : Nat) (a : α) : Buffer α :=
  ⟨Array.replicate count a, count, by simp⟩

/-- The room for `extra` elements more. -/
def grow (capacity size extra : Nat) : Nat :=
  if size + extra ≤ capacity then capacity else max (max (2 * capacity) (size + extra)) 4

theorem le_grow (capacity size extra : Nat) : size + extra ≤ grow capacity size extra := by
  unfold grow
  split <;> omega

def push (b : Buffer α) (a : α) : Buffer α where
  items := b.items.push a
  capacity := grow b.capacity b.items.size 1
  size_le_capacity := by
    simpa using le_grow b.capacity b.items.size 1

/-- Adds several elements at the end, making room for all of them at once. -/
def append (b : Buffer α) (more : Array α) : Buffer α where
  items := b.items ++ more
  capacity := grow b.capacity b.items.size more.size
  size_le_capacity := by
    simpa using le_grow b.capacity b.items.size more.size

/-- Replaces the element at an index; past the end nothing happens. -/
def set (b : Buffer α) (index : Nat) (a : α) : Buffer α where
  items := b.items.setIfInBounds index a
  capacity := b.capacity
  size_le_capacity := by
    simpa using b.size_le_capacity

@[simp] theorem items_withCapacity (n : Nat) : (withCapacity n : Buffer α).items = #[] := rfl

@[simp] theorem items_replicate (n : Nat) (a : α) :
    (replicate n a).items = Array.replicate n a := rfl

@[simp] theorem items_push (b : Buffer α) (a : α) : (b.push a).items = b.items.push a := rfl

@[simp] theorem items_append (b : Buffer α) (more : Array α) :
    (b.append more).items = b.items ++ more := rfl

@[simp] theorem items_set (b : Buffer α) (i : Nat) (a : α) :
    (b.set i a).items = b.items.setIfInBounds i a := rfl

@[simp] theorem capacity_set (b : Buffer α) (i : Nat) (a : α) :
    (b.set i a).capacity = b.capacity := rfl

end Buffer

end Columnar
