import PageEngine.Pool.Basic

/-!
# `Pool/Cache.lean` — reading pages into the cache and making room

Room is made by evicting clean pages. The victim is the first clean page in ascending order, starting at
a drawn place and going around; one choice is drawn for each eviction, also if there is nothing to
choose. **Dirty pages are never evicted**: if every page is dirty there is no room.
-/

set_option autoImplicit false

namespace PageEngine

open Std

namespace Pool

variable {δ : Type} [Storage δ]

/-- Writes the image of a frame to its store and cleans it, if it is dirty. Says whether it wrote. -/
def writeBack (P : Pool δ) (f : FrameId) : Pool δ × Except Error Bool :=
  let page := P.page f
  if page.isClean then (P, .ok false)
  else
    let (storage, r) := Storage.writePage P.storage page
    let P := { P with storage }
    match r with
    | .error e => (P, .error e)
    | .ok () =>
      ((P.setPage f page.markClean).tally fun c => { c with writebacks := c.writebacks + 1 }, .ok true)

/-- Whether the cache holds a clean image of the page. -/
def evictable (P : Pool δ) (p : PageId) : Bool :=
  match P.resident[p]? with
  | some f => (P.page f).isClean
  | none => false

/-- Takes a page out of the cache to make room. -/
def evictPage (P : Pool δ) (p : PageId) : Pool δ × Except Error Unit :=
  let written := match P.resident[p]? with
    | some f => P.writeBack f
    | none => (P, .ok false)
  match written with
  | (P, .error _) => (P, .error .evictionWriteFailed)
  | (P, .ok _) => ((P.discard p).tally fun c => { c with evictions := c.evictions + 1 }, .ok ())

def evict (P : Pool δ) : Pool δ × Except Error Unit :=
  let candidates := P.residentPages
  if candidates.isEmpty then (P, .error .nothingToEvict)
  else
    -- The choice is used up whatever comes of it.
    let (first, draws) := P.draws.below candidates.length
    let P := { P with draws }
    match (candidates.rotateLeft first).find? P.evictable with
    | none => (P, .error .everyPageDirty)
    | some p => P.evictPage p

/-- Evicts the given number of pages, up to the first failure. -/
def evictMany (P : Pool δ) : Nat → Pool δ × Except Error Unit
  | 0 => (P, .ok ())
  | n + 1 =>
    match P.evict with
    | (P, .error e) => (P, .error e)
    | (P, .ok ()) => P.evictMany n

/-- Evicts pages until there is room for one more. -/
def makeRoom (P : Pool δ) : Pool δ × Except Error Unit :=
  P.evictMany (P.resident.size + 1 - P.capacity)

/-- Caches a frame of a page that is not resident, after making room for it. -/
def takeIn (P : Pool δ) (p : PageId) (f : FrameId) : Pool δ × Except Error Unit :=
  match P.makeRoom with
  | (P, .error e) => (P, .error e)
  | (P, .ok ()) => (P.cache p f, .ok ())

/-- The frame of a page: the cached one, or a new one that is read from the storage and cached. The page
is read before room is made for it. -/
def fetch (P : Pool δ) (p : PageId) : Pool δ × Except Error FrameId :=
  match P.resident[p]? with
  | some f => (P.tally fun c => { c with hits := c.hits + 1 }, .ok f)
  | none =>
    let P := P.tally fun c => { c with misses := c.misses + 1 }
    let (storage, r) := Storage.readPage P.storage p
    let P := { P with storage }
    match r with
    | .error e => (P, .error e)
    | .ok page =>
      match P.makeRoom with
      | (P, .error e) => (P, .error e)
      | (P, .ok ()) => ((P.addFrame page).cache p P.nextFrame, .ok P.nextFrame)

/-- Marks a changed frame as dirtied by `t` and makes it the cached one of its page. -/
def install (P : Pool δ) (t : TxnId) (f : FrameId) : Pool δ × Except Error Unit :=
  let page := (P.page f).markDirty t
  -- The mark comes first: a frame for which there is no room stays marked.
  let P := P.setPage f page
  match P.resident[page.id]? with
  | some g => if g = f then (P, .ok ()) else (P.cache page.id f, .ok ())
  | none => P.takeIn page.id f

/-- Installs frames in order, up to the first failure. -/
def installAll (P : Pool δ) (t : TxnId) : List FrameId → Pool δ × Except Error Unit
  | [] => (P, .ok ())
  | f :: fs =>
    match P.install t f with
    | (P, .error e) => (P, .error e)
    | (P, .ok ()) => P.installAll t fs

/-- Writes the pages of a list that are resident and dirty, in order, up to the first failure. -/
def flushIn (P : Pool δ) : List PageId → Pool δ × Except Error Unit
  | [] => (P, .ok ())
  | p :: ps =>
    match P.resident[p]? with
    | none => P.flushIn ps
    | some f =>
      match P.writeBack f with
      | (P, .error e) => (P, .error e)
      | (P, .ok _) => P.flushIn ps

def flushPage (P : Pool δ) (p : PageId) : Pool δ × Except Error Unit := P.flushIn [p]

def flushAll (P : Pool δ) : Pool δ × Except Error Unit := P.flushIn P.residentPages

end Pool

end PageEngine
