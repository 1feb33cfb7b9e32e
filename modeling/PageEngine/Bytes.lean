import PageEngine.Id

/-!
# `Bytes.lean` — byte strings, seen one byte at a time

A byte string is its size and its bytes, where every byte past the end reads as zero (`Bytes.byte`).
The operations are given by what they do to this view:

> **overlaying** writes a source over a byte string at an offset; the gap between the old end and the
> offset, if there is one, reads as zero.
-/

set_option autoImplicit false

namespace PageEngine

/-- A string of bytes. -/
abbrev Bytes := Array UInt8

namespace Bytes

/-- The byte at a position, zero past the end. -/
def byte (b : Bytes) (i : Nat) : UInt8 := b[i]?.getD 0

def zeros (n : Nat) : Bytes := Array.replicate n 0

/-- The string followed by zeros up to a size. -/
def pad (b : Bytes) (n : Nat) : Bytes := b ++ zeros (n - b.size)

/-- The bytes of a range, zero past the end. -/
def slice (b : Bytes) (off len : Nat) : Bytes := pad (b.extract off (off + len)) len

/-- `src` written over `b` at `off`. The result reaches as far as both `b` and the written range. -/
def overlay (b : Bytes) (off : Nat) (src : Bytes) : Bytes :=
  pad (b.extract 0 off) off ++ src ++ b.extract (off + src.size) b.size

@[simp] theorem size_zeros (n : Nat) : (zeros n).size = n := by simp [zeros]

@[simp] theorem size_pad (b : Bytes) (n : Nat) : (b.pad n).size = max b.size n := by
  simp only [pad, Array.size_append, size_zeros]
  omega

@[simp] theorem size_slice (b : Bytes) (off len : Nat) : (b.slice off len).size = len := by
  simp only [slice, size_pad, Array.size_extract]
  omega

@[simp] theorem size_overlay (b : Bytes) (off : Nat) (src : Bytes) :
    (b.overlay off src).size = max b.size (off + src.size) := by
  simp only [overlay, Array.size_append, size_pad, Array.size_extract]
  omega

theorem byte_of_size_le {b : Bytes} {i : Nat} (h : b.size ≤ i) : b.byte i = 0 := by
  simp [Bytes.byte, h]

theorem byte_append (a b : Bytes) (i : Nat) :
    Bytes.byte (a ++ b) i = if i < a.size then a.byte i else b.byte (i - a.size) := by
  unfold Bytes.byte
  rw [Array.getElem?_append]
  split <;> rfl

theorem byte_extract (b : Bytes) (start stop i : Nat) :
    Bytes.byte (b.extract start stop) i = if start + i < stop then b.byte (start + i) else 0 := by
  unfold Bytes.byte
  rw [Array.getElem?_extract]
  by_cases h : start + i < stop
  · by_cases hb : start + i < b.size
    · rw [if_pos (by omega), if_pos h]
    · rw [if_neg (by omega), if_pos h, Array.getElem?_eq_none (by omega)]
  · rw [if_neg (by omega), if_neg h]
    rfl

@[simp] theorem byte_zeros (n i : Nat) : (zeros n).byte i = 0 := by
  by_cases h : i < n <;> simp [zeros, Bytes.byte, h]

theorem byte_pad (b : Bytes) (n i : Nat) : (b.pad n).byte i = b.byte i := by
  rw [pad, byte_append, byte_zeros]
  split
  · rfl
  · rw [byte_of_size_le (by omega)]

theorem byte_slice (b : Bytes) (off len i : Nat) :
    (b.slice off len).byte i = if i < len then b.byte (off + i) else 0 := by
  rw [slice, byte_pad, byte_extract]
  simp only [Nat.add_lt_add_iff_left]

theorem byte_overlay (b : Bytes) (off : Nat) (src : Bytes) (i : Nat) :
    (b.overlay off src).byte i =
      if off ≤ i ∧ i < off + src.size then src.byte (i - off) else b.byte i := by
  have hsize : (pad (b.extract 0 off) off).size = off := by
    rw [size_pad, Array.size_extract]
    omega
  rw [overlay, byte_append, byte_append, Array.size_append, byte_pad, byte_extract, byte_extract, hsize]
  by_cases h₁ : i < off
  · rw [if_pos (by omega), if_pos h₁, if_pos (by omega), if_neg (by omega), Nat.zero_add]
  · by_cases h₂ : i < off + src.size
    · rw [if_pos h₂, if_neg h₁, if_pos ⟨by omega, h₂⟩]
    · have hi : off + src.size + (i - (off + src.size)) = i := by omega
      have hr : ¬(off ≤ i ∧ i < off + src.size) := by omega
      rw [if_neg h₂, hi, if_neg hr]
      split
      · rfl
      · rw [byte_of_size_le (by omega)]

theorem byte_setIfInBounds (b : Bytes) (i : Nat) (v : UInt8) (j : Nat) :
    Bytes.byte (b.setIfInBounds i v) j = if i = j ∧ j < b.size then v else b.byte j := by
  unfold Bytes.byte
  rw [Array.getElem?_setIfInBounds]
  by_cases h : i = j
  · subst h
    by_cases hi : i < b.size <;> simp [hi]
  · simp [h]

/-- Two byte strings are equal when they have one size and agree at every position. -/
theorem ext_byte {a b : Bytes} (hs : a.size = b.size) (h : ∀ i, a.byte i = b.byte i) : a = b := by
  apply Array.ext hs
  intro i ha hb
  simpa [Bytes.byte, ha, hb] using h i

end Bytes

/-! ## Page contents -/

/-- The contents of a page: as many bytes as a page has. -/
structure PageData where
  bytes : Bytes
  size_eq : bytes.size = pageSize
deriving DecidableEq

namespace PageData

def zeros : PageData := ⟨Bytes.zeros pageSize, Bytes.size_zeros pageSize⟩

/-- The byte at a position, zero past the end of the page. -/
def byte (d : PageData) (i : Nat) : UInt8 := d.bytes.byte i

/-- The contents read from a byte string at an offset, zero past its end. -/
def ofBytes (b : Bytes) (off : Nat) : PageData :=
  ⟨b.slice off pageSize, Bytes.size_slice b off pageSize⟩

def slice (d : PageData) (off len : Nat) : Bytes := d.bytes.slice off len

/-- `src` written over the page at `off`; what lies past the end of the page is dropped. -/
def overlay (d : PageData) (off : Nat) (src : Bytes) : PageData :=
  ofBytes (d.bytes.overlay off src) 0

/-- The page with one of its bytes replaced; a position past its end changes nothing. -/
def setByte (d : PageData) (i : Nat) (v : UInt8) : PageData :=
  ⟨d.bytes.setIfInBounds i v, by rw [Array.size_setIfInBounds, d.size_eq]⟩

theorem byte_zeros (i : Nat) : zeros.byte i = 0 := Bytes.byte_zeros _ _

theorem byte_ofBytes (b : Bytes) (off i : Nat) :
    (ofBytes b off).byte i = if i < pageSize then b.byte (off + i) else 0 := by
  rw [byte, ofBytes, Bytes.byte_slice]

theorem byte_overlay (d : PageData) (off : Nat) (src : Bytes) (i : Nat) :
    (d.overlay off src).byte i =
      if i < pageSize then
        if off ≤ i ∧ i < off + src.size then src.byte (i - off) else d.byte i
      else 0 := by
  rw [overlay, byte_ofBytes, Nat.zero_add, Bytes.byte_overlay]
  rfl

theorem byte_setByte (d : PageData) (i : Nat) (v : UInt8) (j : Nat) :
    (d.setByte i v).byte j = if i = j ∧ j < pageSize then v else d.byte j := by
  rw [byte, setByte, Bytes.byte_setIfInBounds, d.size_eq]
  rfl

theorem byte_slice (d : PageData) (off len i : Nat) :
    (d.slice off len).byte i = if i < len then d.byte (off + i) else 0 :=
  Bytes.byte_slice _ _ _ _

/-- Two page contents are equal when they agree at every position. -/
theorem ext_byte {a b : PageData} (h : ∀ i, i < pageSize → a.byte i = b.byte i) : a = b := by
  cases a with | mk a ha => cases b with | mk b hb =>
  congr 1
  apply Bytes.ext_byte (ha.trans hb.symm)
  intro i
  by_cases hi : i < pageSize
  · exact h i hi
  · rw [Bytes.byte_of_size_le (by omega), Bytes.byte_of_size_le (by omega)]

end PageData

end PageEngine
