import PageEngine.Bytes
import PageEngine.Error

/-!
# `File/System.lean` — a file of the operating system

The operating system moves as many bytes of a request as it likes, so reading and writing call it until
the request is done. A `Transfers` schedule says how many bytes each call is ready to move; a call
never moves more than remains, and a read never moves more than lies before the end of the file.

> **the schedule does not show**: under any schedule that always moves something, a write ends with the
> file overlaid by the whole source, and a read gives the bytes of the range or reports the end of the
> file.

A request for no bytes makes no call. Offsets are signed words for the operating system, so a range
that ends past them is refused with a bare code.
-/

set_option autoImplicit false

namespace PageEngine

/-- How many bytes the operating system is ready to move in the call of each number. -/
abbrev Transfers := Nat → Nat

/-- One more than the largest offset that the operating system takes. -/
def systemOffsetLimit : Nat := 1 <<< 63

/-- A file of the operating system. -/
structure SystemFile where
  bytes : Bytes := #[]
deriving DecidableEq

namespace SystemFile

/-- The failure of a read that reaches the end of the file. -/
def reachedEnd : Error := .io (some "read_at reached EOF")

/-- The failure of a write that moves nothing. -/
def wroteNothing : Error := .io (some "write_at wrote zero bytes")

/-- The bare code for a range that ends past the offsets. -/
def badOffset : Error := .io none

/-- The bare code for a file that cannot be opened. -/
def cannotOpen : Error := .io none

/-- Reads what is missing of `len` bytes at `off` after `got`, from the call of number `k` on. -/
def readFrom (f : SystemFile) (moves : Transfers) (off len : Nat) (k : Nat) (got : Bytes) :
    Except Error Bytes :=
  if got.size < len then
    let n := min (moves k) (min (len - got.size) (f.bytes.size - (off + got.size)))
    if n = 0 then .error reachedEnd
    else f.readFrom moves off len (k + 1) (got ++ f.bytes.slice (off + got.size) n)
  else .ok got
termination_by len - got.size
decreasing_by
  rw [Array.size_append, Bytes.size_slice]
  omega

def readAt (f : SystemFile) (moves : Transfers) (off len : Nat) : Except Error Bytes :=
  if 0 < len ∧ systemOffsetLimit ≤ off + len then .error badOffset
  else f.readFrom moves off len 0 #[]

/-- Writes the bytes of `src` from number `put` on, from the call of number `k` on. -/
def writeFrom (f : SystemFile) (moves : Transfers) (off : Nat) (src : Bytes) (k put : Nat) :
    SystemFile × Except Error Unit :=
  if put < src.size then
    let n := min (moves k) (src.size - put)
    if n = 0 then (f, .error wroteNothing)
    else writeFrom ⟨f.bytes.overlay (off + put) (src.slice put n)⟩ moves off src (k + 1) (put + n)
  else (f, .ok ())
termination_by src.size - put

def writeAt (f : SystemFile) (moves : Transfers) (off : Nat) (src : Bytes) :
    SystemFile × Except Error Unit :=
  if 0 < src.size ∧ systemOffsetLimit ≤ off + src.size then (f, .error badOffset)
  else f.writeFrom moves off src 0 0

end SystemFile

end PageEngine
