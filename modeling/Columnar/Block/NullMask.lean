import Columnar.Bitmap.Basic

/-!
# Null masks

A column marks its null cells by the set bits of a bitmap.  A column without a
null keeps no bitmap at all, and then answers for any position, even past its
end, that the cell there is not null.

## Main definitions

* `NullMask` — the bitmap, if it is kept.
* `NullMask.ofBitmap` — keeps a bitmap only if it marks something.
* `NullMask.isNull` — whether the cell at a position is null.
-/

namespace Columnar

/-- The marks of the null cells of a column. -/
structure NullMask where
  /-- The bitmap, kept only if some bit is set. -/
  bits? : Option Bitmap

namespace NullMask

/-- Masks are equal if both keep no bitmap or the bitmaps are equal. -/
instance : BEq NullMask where
  beq a b := a.bits? == b.bits?

/-- The mask of a column without nulls. -/
def none : NullMask := ⟨.none⟩

/-- The mask that a bitmap amounts to. -/
def ofBitmap (bits : Bitmap) : NullMask := ⟨if bits.any then some bits else .none⟩

def isNull (mask : NullMask) (position : Nat) : Result Bool :=
  match mask.bits? with
  | .none => .ok false
  | some bits => bits.get position

def sizeInBytes (mask : NullMask) : Nat :=
  match mask.bits? with
  | .none => 0
  | some bits => bits.sizeInBytes

end NullMask

end Columnar
