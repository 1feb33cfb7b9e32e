import PageEngine.Page

/-!
# `Heap/Layout.lean` — fixed-width tuples in a page

A heap page starts with an occupancy bitmap, one bit per slot, slot 0 in the least significant bit of
byte 0. The slots follow, each as wide as a tuple of the table. A page of `pageSize` bytes holds
`pageSize * 8 / (width * 8 + 1)` slots, since a slot takes `width * 8` bits and one bit of the bitmap.

> **a heap page is a map from slots to tuples**: a slot is used or free, and a used slot holds exactly
> the bytes last written to it.

The number of slots is computed in machine words (`SlotShape`). For a width of `2 ^ 61` bytes or more the
bits of a slot do not fit a word, and what is computed need not fit a page. A `SlotLayout` is a shape for
which they do, and only over such a layout are pages read and written.
-/

set_option autoImplicit false

namespace PageEngine

/-- The byte with its bit `k` set to `v`. -/
def setBit (b : UInt8) (k : Nat) (v : Bool) : UInt8 :=
  if v then b ||| UInt8.ofNat (1 <<< k) else b &&& ~~~(UInt8.ofNat (1 <<< k))

/-- What a machine word keeps of a number. -/
def inWord (n : Nat) : Nat := n % UInt64.size

/-- How many slots of a width fit a page together with their bits, as it is computed in machine words. -/
def slotsOfWidth (width : Nat) : Nat := pageSize * 8 / inWord (width * 8 + 1)

/-- The largest number of slots that slot numbers can name. -/
def maxSlots : Nat := UInt16.size - 1

/-- What is computed for tuples of a width. -/
structure SlotShape where
  width : Nat
  /-- Slots per page. -/
  slots : Nat
  /-- Bytes of the bitmap. -/
  headerLen : Nat
deriving DecidableEq

namespace SlotShape

/-- Where a slot starts in the page, and where it ends. -/
def slotStart (g : SlotShape) (slot : Nat) : Nat := inWord (g.headerLen + slot * g.width)

/-- The shape for logs. -/
def describe (g : SlotShape) : String :=
  "SlotLayout \x7b width: " ++ toString g.width ++ ", slots: " ++ toString g.slots ++
    ", header_len: " ++ toString g.headerLen ++ " \x7d"

end SlotShape

/-- The slot geometry of every page of a heap file. -/
structure SlotLayout where
  width : Nat
  width_pos : 0 < width
  /-- The bits of a slot fit a machine word. -/
  bits_lt : width * 8 + 1 < UInt64.size
  slots_pos : 0 < slotsOfWidth width
  slots_le : slotsOfWidth width ≤ maxSlots
deriving DecidableEq

namespace SlotLayout

/-- The shape for tuples of a width, if the width is not zero and a page is found to have room for a slot. -/
def ofWidth (width : Nat) : Except Error SlotShape :=
  let slots := slotsOfWidth width
  if width = 0 then .error .zeroWidth
  else if slots = 0 ∨ maxSlots < slots then .error .widthDoesNotFit
  else .ok ⟨width, slots, (slots + 7) / 8⟩

/-- The layout for tuples of a width, if there is one. -/
def ofWidth? (width : Nat) : Option SlotLayout :=
  if h : 0 < width ∧ width * 8 + 1 < UInt64.size ∧ 0 < slotsOfWidth width ∧ slotsOfWidth width ≤ maxSlots then
    some ⟨width, h.1, h.2.1, h.2.2.1, h.2.2.2⟩
  else none

/-- Slots per page. -/
def slots (l : SlotLayout) : Nat := slotsOfWidth l.width

/-- Bytes of the bitmap. -/
def headerLen (l : SlotLayout) : Nat := (l.slots + 7) / 8

/-- Where a slot starts in the page. -/
def slotStart (l : SlotLayout) (slot : Nat) : Nat := l.headerLen + slot * l.width

def isUsed (d : PageData) (slot : Nat) : Bool := (d.byte (slot / 8)).toNat.testBit (slot % 8)

def setUsed (d : PageData) (slot : Nat) (used : Bool) : PageData :=
  d.setByte (slot / 8) (setBit (d.byte (slot / 8)) (slot % 8) used)

def readSlot (l : SlotLayout) (d : PageData) (slot : Nat) : Bytes := d.slice (l.slotStart slot) l.width

def writeSlot (l : SlotLayout) (d : PageData) (slot : Nat) (tuple : Bytes) : PageData :=
  d.overlay (l.slotStart slot) tuple

/-- The least free slot. -/
def freeSlot (l : SlotLayout) (d : PageData) : Option Nat :=
  (List.range l.slots).find? fun slot => !isUsed d slot

/-- The used slots, in ascending order. -/
def usedSlots (l : SlotLayout) (d : PageData) : List Nat := (List.range l.slots).filter (isUsed d)

end SlotLayout

/-- The bytes of a row, and where they are stored once they are. -/
structure Tuple where
  recordId : Option RecordId := none
  data : Bytes
deriving DecidableEq

namespace SlotLayout

/-- The tuples in the used slots of a page, in the order of the slots. -/
def tuples (l : SlotLayout) (p : PageId) (d : PageData) : List Tuple :=
  (l.usedSlots d).map fun slot => ⟨some ⟨p, slot⟩, l.readSlot d slot⟩

/-- The page with a tuple's bytes in a slot, which is now used. -/
def place (l : SlotLayout) (d : PageData) (slot : Nat) (tuple : Bytes) : PageData :=
  l.writeSlot (setUsed d slot true) slot tuple

end SlotLayout

end PageEngine
