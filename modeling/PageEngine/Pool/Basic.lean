import PageEngine.Draws
import PageEngine.LockTable
import PageEngine.Page
import PageEngine.Store

/-!
# `Pool/Basic.lean` — a bounded cache of page images with locks

A pool caches at most `capacity` pages of a storage. What it hands out is a **frame**: one image of a
page, shared by everybody who has it. A frame goes on to exist when its page leaves the cache, and if
the page is read again it gets another frame. So the pool keeps all frames ever made, and the cache is
the map from the resident pages to their frames.

An operation gives the pool after it together with its result. A failing operation gives the pool that
it leaves behind, which need not be the one it started from.
-/

set_option autoImplicit false

namespace PageEngine

open Std

/-- Identifies one page image of a pool. -/
structure FrameId where
  index : Nat
deriving DecidableEq, Repr

/-- Counters of what a pool did. -/
structure Counters where
  /-- Requests served from the cache. -/
  hits : Nat := 0
  /-- Requests for which the page had to be read. -/
  misses : Nat := 0
  /-- Clean pages that left the cache to make room. -/
  evictions : Nat := 0
  /-- Dirty pages that were written to their store. -/
  writebacks : Nat := 0
  commits : Nat := 0
  aborts : Nat := 0
deriving DecidableEq, Repr

/-- A bounded cache of pages, with page locks. -/
structure Pool (δ : Type) where
  capacity : Nat
  storage : δ
  locks : LockTable := {}
  /-- Every page image ever made, by its identity. -/
  frames : Array Page := #[]
  /-- The cached pages and their images. -/
  resident : ExtTreeMap PageId FrameId := ∅
  /-- The choices of eviction to come. -/
  draws : Draws
  counters : Counters := {}

namespace Pool

variable {δ : Type}

/-- A pool with nothing in its cache. It has to be able to hold a page. -/
def create (capacity : Nat) (draws : Draws) (storage : δ) : Except Error (Pool δ) :=
  if capacity = 0 then .error .zeroCapacity else .ok { capacity, storage, draws }

def page (P : Pool δ) (f : FrameId) : Page := P.frames[f.index]?.getD default

def setPage (P : Pool δ) (f : FrameId) (page : Page) : Pool δ :=
  { P with frames := P.frames.setIfInBounds f.index page }

def nextFrame (P : Pool δ) : FrameId := ⟨P.frames.size⟩

def addFrame (P : Pool δ) (page : Page) : Pool δ := { P with frames := P.frames.push page }

def isResident (P : Pool δ) (p : PageId) : Bool := P.resident.contains p

/-- The cached pages in ascending order. -/
def residentPages (P : Pool δ) : List PageId := P.resident.keys

/-- Puts a frame into the cache under the name of a page. -/
def cache (P : Pool δ) (p : PageId) (f : FrameId) : Pool δ :=
  { P with resident := P.resident.insert p f }

/-- Drops a page from the cache without writing it. -/
def discard (P : Pool δ) (p : PageId) : Pool δ := { P with resident := P.resident.erase p }

def tally (P : Pool δ) (count : Counters → Counters) : Pool δ :=
  { P with counters := count P.counters }

def withLocks (P : Pool δ) (locks : LockTable) : Pool δ := { P with locks }

end Pool

end PageEngine
