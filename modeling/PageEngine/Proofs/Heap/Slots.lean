import Mathlib.Data.List.Nodup
import Mathlib.Tactic.Common
import PageEngine.Heap.Layout

/-!
# `Proofs/Heap/Slots.lean` — a heap page as a map from slots to rows

`SlotLayout.rowAt` is the row in a slot of a page, if the slot is used. It is all that a scan, an insert
and a delete know of a page:

> **placing a row changes the row of its slot and no other, and so does freeing a slot.**

The reason is geometry: a bit of the bitmap belongs to one slot, the bitmap ends before the first slot
begins, the slots do not overlap, and the last one ends inside the page.
-/

set_option autoImplicit false

namespace PageEngine

/-! ## Bits -/

theorem testBit_not (b : UInt8) {j : Nat} (hj : j < 8) :
    (~~~b).toNat.testBit j = !b.toNat.testBit j := by
  have hsub : UInt8.size - 1 - b.toNat = 2 ^ 8 - (b.toNat + 1) := by
    simp only [UInt8.size]
    omega
  rw [UInt8.toNat_not, hsub, Nat.testBit_two_pow_sub_succ b.toNat_lt]
  simp [hj]

theorem testBit_setBit (b : UInt8) {k j : Nat} (hk : k < 8) (hj : j < 8) (v : Bool) :
    (setBit b k v).toNat.testBit j = if j = k then v else b.toNat.testBit j := by
  have hmask : (UInt8.ofNat (1 <<< k)).toNat.testBit j = decide (k = j) := by
    have hlt : 1 <<< k < UInt8.size := by
      rw [Nat.one_shiftLeft]
      exact Nat.lt_of_le_of_lt (Nat.pow_le_pow_right (by decide) (Nat.le_of_lt_succ hk)) (by decide)
    rw [UInt8.toNat_ofNat_of_lt' hlt, Nat.one_shiftLeft, Nat.testBit_two_pow]
  cases v with
  | true =>
    rw [setBit, if_pos rfl, UInt8.toNat_or, Nat.testBit_or, hmask]
    by_cases h : j = k
    · simp [h]
    · simp [h, Ne.symm h]
  | false =>
    rw [setBit, if_neg (by simp), UInt8.toNat_and, Nat.testBit_and, testBit_not _ hj, hmask]
    by_cases h : j = k
    · simp [h]
    · simp [h, Ne.symm h]

namespace SlotLayout

variable (l : SlotLayout) {d : PageData} {s s' : Nat}

/-! ## Geometry -/

/-- In a layout the bits of a slot are counted as they are. -/
theorem slots_eq : l.slots = pageSize * 8 / (l.width * 8 + 1) := by
  rw [slots, slotsOfWidth, inWord, Nat.mod_eq_of_lt l.bits_lt]

/-- The bitmap and the slots fit the page. -/
theorem header_add_slots_le : l.headerLen + l.slots * l.width ≤ pageSize := by
  have hdiv : l.slots * (l.width * 8 + 1) ≤ pageSize * 8 := by
    rw [slots_eq]
    exact Nat.div_mul_le_self _ _
  have hexp : l.slots * (l.width * 8 + 1) = 8 * (l.slots * l.width) + l.slots := by
    rw [Nat.mul_add, Nat.mul_one, ← Nat.mul_assoc, Nat.mul_comm (l.slots * l.width) 8]
  rw [hexp] at hdiv
  simp only [headerLen]
  omega

/-- The bit of a slot lies in the bitmap. -/
theorem bit_lt_header {l : SlotLayout} (hs : s < l.slots) : s / 8 < l.headerLen := by
  simp only [headerLen]
  omega

theorem header_le_slotStart : l.headerLen ≤ l.slotStart s := Nat.le_add_right _ _

theorem slotStart_add_width_le {l : SlotLayout} (hs : s < l.slots) :
    l.slotStart s + l.width ≤ pageSize := by
  have hmul : (s + 1) * l.width ≤ l.slots * l.width := Nat.mul_le_mul_right _ hs
  have hle := l.header_add_slots_le
  rw [Nat.succ_mul] at hmul
  simp only [slotStart]
  omega

/-- Two slots do not overlap. -/
theorem slotStart_apart (hne : s' ≠ s) :
    l.slotStart s' + l.width ≤ l.slotStart s ∨ l.slotStart s + l.width ≤ l.slotStart s' := by
  simp only [slotStart]
  rcases Nat.lt_or_gt_of_ne hne with hlt | hlt
  · have hmul : (s' + 1) * l.width ≤ s * l.width := Nat.mul_le_mul_right _ hlt
    rw [Nat.succ_mul] at hmul
    omega
  · have hmul : (s + 1) * l.width ≤ s' * l.width := Nat.mul_le_mul_right _ hlt
    rw [Nat.succ_mul] at hmul
    omega

theorem bit_lt_pageSize {l : SlotLayout} (hs : s < l.slots) : s / 8 < pageSize :=
  Nat.lt_of_lt_of_le (bit_lt_header hs) (Nat.le_trans (Nat.le_add_right _ _) l.header_add_slots_le)

/-! ## Bits and bytes of a page -/

theorem isUsed_setUsed {l : SlotLayout} (hs : s < l.slots) (used : Bool) :
    isUsed (setUsed d s used) s' = if s' = s then used else isUsed d s' := by
  simp only [isUsed, setUsed, PageData.byte_setByte]
  by_cases hbyte : s / 8 = s' / 8
  · rw [if_pos ⟨hbyte, hbyte ▸ bit_lt_pageSize hs⟩,
      testBit_setBit _ (Nat.mod_lt _ (by decide)) (Nat.mod_lt _ (by decide)), hbyte]
    by_cases h : s' = s
    · rw [if_pos h, if_pos (by rw [h])]
    · rw [if_neg h, if_neg (by omega)]
  · rw [if_neg fun h => hbyte h.1, if_neg (by rintro rfl; exact hbyte rfl)]

/-- The bitmap is not touched by what is written into a slot. -/
theorem isUsed_writeSlot {l : SlotLayout} (hs' : s' < l.slots) (x : Bytes) :
    isUsed (l.writeSlot d s x) s' = isUsed d s' := by
  have hlt := bit_lt_header hs'
  have hle := l.header_le_slotStart (s := s)
  rw [isUsed, writeSlot, PageData.byte_overlay, if_pos (bit_lt_pageSize hs'), if_neg (by omega), isUsed]

/-- What is written into a slot is read from it. -/
theorem readSlot_writeSlot {l : SlotLayout} (hs : s < l.slots) {x : Bytes} (hx : x.size = l.width) :
    l.readSlot (l.writeSlot d s x) s = x := by
  have hend := slotStart_add_width_le hs
  apply Bytes.ext_byte
  · rw [readSlot, PageData.slice, Bytes.size_slice, hx]
  · intro i
    rw [readSlot, PageData.byte_slice, writeSlot, PageData.byte_overlay]
    by_cases hi : i < l.width
    · rw [if_pos hi, if_pos (by omega), if_pos (by omega), Nat.add_sub_cancel_left]
    · rw [if_neg hi, Bytes.byte_of_size_le (by omega)]

/-- What is written into another slot is not read. -/
theorem readSlot_writeSlot_other {l : SlotLayout} (hs' : s' < l.slots) (hne : s' ≠ s) {x : Bytes}
    (hx : x.size = l.width) : l.readSlot (l.writeSlot d s x) s' = l.readSlot d s' := by
  have hend := slotStart_add_width_le hs'
  have hapart := l.slotStart_apart hne
  apply Bytes.ext_byte
  · rw [readSlot, readSlot, PageData.slice, PageData.slice, Bytes.size_slice, Bytes.size_slice]
  · intro i
    rw [readSlot, readSlot, PageData.byte_slice, PageData.byte_slice, writeSlot,
      PageData.byte_overlay]
    by_cases hi : i < l.width
    · rw [if_pos hi, if_pos hi, if_pos (by omega), if_neg (by omega)]
    · rw [if_neg hi, if_neg hi]

/-- The slots are not touched by the bitmap. -/
theorem readSlot_setUsed {l : SlotLayout} (hs : s < l.slots) (used : Bool) :
    l.readSlot (setUsed d s used) s' = l.readSlot d s' := by
  have hlt := bit_lt_header hs
  have hle := l.header_le_slotStart (s := s')
  apply Bytes.ext_byte
  · rw [readSlot, readSlot, PageData.slice, PageData.slice, Bytes.size_slice, Bytes.size_slice]
  · intro i
    rw [readSlot, readSlot, PageData.byte_slice, PageData.byte_slice]
    by_cases hi : i < l.width
    · rw [if_pos hi, if_pos hi, setUsed, PageData.byte_setByte, if_neg (by omega)]
    · rw [if_neg hi, if_neg hi]

/-! ## A row in a slot -/

theorem isUsed_place {l : SlotLayout} (hs : s < l.slots) (x : Bytes) :
    isUsed (l.place d s x) s = true := by
  rw [place, isUsed_writeSlot hs, isUsed_setUsed hs, if_pos rfl]

theorem isUsed_place_other {l : SlotLayout} (hs : s < l.slots) (hs' : s' < l.slots) (hne : s' ≠ s) (x : Bytes) :
    isUsed (l.place d s x) s' = isUsed d s' := by
  rw [place, isUsed_writeSlot hs', isUsed_setUsed hs, if_neg hne]

theorem readSlot_place {l : SlotLayout} (hs : s < l.slots) {x : Bytes} (hx : x.size = l.width) :
    l.readSlot (l.place d s x) s = x := by
  rw [place, readSlot_writeSlot hs hx]

theorem readSlot_place_other {l : SlotLayout} (hs : s < l.slots) (hs' : s' < l.slots) (hne : s' ≠ s) {x : Bytes}
    (hx : x.size = l.width) : l.readSlot (l.place d s x) s' = l.readSlot d s' := by
  rw [place, readSlot_writeSlot_other hs' hne hx, readSlot_setUsed hs]

/-! ## Rows -/

/-- The row in a slot of a page. -/
def rowAt (d : PageData) (s : Nat) : Option Bytes :=
  if s < l.slots ∧ isUsed d s = true then some (l.readSlot d s) else none

/-- **Placing a row changes its slot and no other.** -/
theorem rowAt_place {l : SlotLayout} (hs : s < l.slots) {x : Bytes} (hx : x.size = l.width) (s' : Nat) :
    l.rowAt (l.place d s x) s' = if s' = s then some x else l.rowAt d s' := by
  by_cases h : s' = s
  · subst h
    rw [rowAt, if_pos ⟨hs, isUsed_place hs x⟩, if_pos rfl, readSlot_place hs hx]
  · rw [if_neg h, rowAt, rowAt]
    by_cases hs' : s' < l.slots
    · rw [isUsed_place_other hs hs' h, readSlot_place_other hs hs' h hx]
    · rw [if_neg fun hin => hs' hin.1, if_neg fun hin => hs' hin.1]

/-- **Freeing a slot takes its row and no other.** -/
theorem rowAt_setUsed_false {l : SlotLayout} (hs : s < l.slots) (s' : Nat) :
    l.rowAt (setUsed d s false) s' = if s' = s then none else l.rowAt d s' := by
  rw [rowAt, rowAt, isUsed_setUsed hs, readSlot_setUsed hs]
  by_cases h : s' = s
  · simp [h]
  · simp [h]

@[simp] theorem isUsed_zeros (s : Nat) : isUsed PageData.zeros s = false := by
  simp [isUsed, PageData.byte_zeros]

@[simp] theorem rowAt_zeros (s : Nat) : l.rowAt PageData.zeros s = none := by
  simp [rowAt]

/-- A page of one slot has room as long as that is free. -/
theorem freeSlot_of_one {l : SlotLayout} (h : l.slots = 1) (d : PageData) :
    l.freeSlot d = if isUsed d 0 then none else some 0 := by
  cases hused : isUsed d 0 <;> simp [freeSlot, h, List.range_succ, hused]

/-- The slot that an insert takes exists and is free. -/
theorem freeSlot_spec {l : SlotLayout} (h : l.freeSlot d = some s) :
    s < l.slots ∧ isUsed d s = false := by
  have hmem := List.mem_range.1 (List.mem_of_find?_eq_some h)
  have hfree := List.find?_some h
  exact ⟨hmem, by simpa using hfree⟩

/-- The slots before it are used. -/
theorem isUsed_of_lt_freeSlot {l : SlotLayout} (h : l.freeSlot d = some s) (hs' : s' < s) :
    isUsed d s' = true := by
  simpa using (List.find?_range_eq_some.1 h).2.2 s' hs'

theorem freeSlot_eq_none {l : SlotLayout} : l.freeSlot d = none ↔ ∀ s < l.slots, isUsed d s = true := by
  simp [freeSlot]

@[simp] theorem freeSlot_zeros : l.freeSlot PageData.zeros = some 0 :=
  List.find?_range_eq_some.2 ⟨by simp, List.mem_range.2 l.slots_pos, fun j hj => absurd hj (Nat.not_lt_zero j)⟩

/-- **A scan finds the rows of a page**, each with its record id. -/
theorem mem_tuples {p : PageId} {x : Tuple} :
    x ∈ l.tuples p d ↔ ∃ s b, l.rowAt d s = some b ∧ x = ⟨some ⟨p, s⟩, b⟩ := by
  simp only [tuples, usedSlots, List.mem_map, List.mem_filter, List.mem_range]
  constructor
  · rintro ⟨s, hs, rfl⟩
    exact ⟨s, l.readSlot d s, if_pos hs, rfl⟩
  · rintro ⟨s, b, hrow, rfl⟩
    rw [rowAt] at hrow
    split at hrow
    · rename_i hs
      exact ⟨s, hs, by rw [Option.some.inj hrow]⟩
    · cases hrow

/-- No row is found twice. -/
theorem tuples_nodup (p : PageId) (d : PageData) :
    ((l.tuples p d).map Tuple.recordId).Nodup := by
  rw [tuples, List.map_map]
  refine List.Nodup.map ?_ (List.nodup_range.filter _)
  intro s s' h
  simpa using h

end SlotLayout

end PageEngine
