import PageEngine.Bytes
import PageEngine.Error

/-!
# `File/Memory.lean` — a file kept in memory

A flat byte string that is read and written at offsets, with a count of the writes and of the syncs.
A read has to lie inside the file. A write puts its bytes at the offset and extends the file with
zeros as far as it needs; also an empty write reaches its offset.
-/

set_option autoImplicit false

namespace PageEngine

/-- One more than the largest machine offset. -/
def offsetLimit : Nat := UInt64.size

/-- A file kept in memory. -/
structure MemoryFile where
  bytes : Bytes := #[]
  writes : Nat := 0
  syncs : Nat := 0
deriving DecidableEq

namespace MemoryFile

/-- The failure of a read that leaves the file. -/
def pastEnd : Error := .io (some "read past end of memory file")

def readAt (f : MemoryFile) (off len : Nat) : Except Error Bytes :=
  if offsetLimit ≤ off + len then .error .offsetOverflow
  else if f.bytes.size < off + len then .error pastEnd
  else .ok (f.bytes.slice off len)

def writeAt (f : MemoryFile) (off : Nat) (src : Bytes) : MemoryFile × Except Error Unit :=
  if offsetLimit ≤ off + src.size then (f, .error .offsetOverflow)
  else ({ f with bytes := f.bytes.overlay off src, writes := f.writes + 1 }, .ok ())

/-- Counts a sync; there is nothing else to do. -/
def sync (f : MemoryFile) : MemoryFile := { f with syncs := f.syncs + 1 }

end MemoryFile

end PageEngine
