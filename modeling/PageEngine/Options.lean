import PageEngine.Draws
import PageEngine.Pool.Basic

/-!
# `Options.lean` — how a pool is set up

The number of pages that the cache may hold, and the seed of its eviction choices. Options are usable
when the cache may hold a page.
-/

set_option autoImplicit false

namespace PageEngine

/-- The number of pages that a cache holds unless it is told otherwise. -/
def defaultCapacity : Nat := 50

structure Options where
  capacity : Nat := defaultCapacity
  /-- Fixes the eviction choices; without it any choices serve. -/
  evictionSeed : Option Nat := none
deriving DecidableEq, Repr

/-- Why options cannot be had. -/
inductive OptionsError where
  /-- The document cannot be read, or is not text. -/
  | unreadable
  /-- The document is not one that gives options. -/
  | malformed
  /-- The cache could hold no page. -/
  | zeroCapacity
deriving DecidableEq, Repr

/-- The wording of a cause; a document that is unreadable or malformed is reported without one. -/
def OptionsError.message : OptionsError → Option String
  | zeroCapacity => some "buffer pool capacity must be at least 1"
  | _ => none

namespace Options

/-- The options themselves, if they are usable. -/
def validate (o : Options) : Except OptionsError Options :=
  if o.capacity = 0 then .error .zeroCapacity else .ok o

/-- The eviction choices; without a seed those of seed zero. -/
def draws (o : Options) : Draws := Draws.ofSeed (o.evictionSeed.getD 0).toUInt64

end Options

namespace Pool

variable {δ : Type}

/-- A pool over a storage with nothing in its cache. -/
def ofOptions (o : Options) (storage : δ) : Except Error (Pool δ) := create o.capacity o.draws storage

/-- A new pool over the storage of another one. The frames that were handed out go on to exist. -/
def reopen (P : Pool δ) (o : Options) : Pool δ :=
  { capacity := P.capacity, storage := P.storage, frames := P.frames, draws := o.draws }

end Pool

end PageEngine
