import PageEngine.Heap.File

/-!
# `Store.lean` — what backs a table, and the tables of an engine

The cache above needs three things of a `Storage`: to read a page, to write a page and to sync a table.
`Tables` is the storage of the engine: a catalog that names the store of each table, and the disk on
which the stores lie.

Most stores are heap files. A **detached** store keeps its pages in a heap file but changes them outside
the cache and without any lock: it reads fresh images straight from the file and counts one up in their
last byte. It shows how the cache treats page images that it did not hand out.
-/

set_option autoImplicit false

namespace PageEngine

open Std

/-- What the cache needs of the layer below. Every call may change the storage, also a failing one. -/
class Storage (δ : Type) where
  /-- Reads a page. -/
  readPage : δ → PageId → δ × Except Error Page
  /-- Writes the contents of a page. -/
  writePage : δ → Page → δ × Except Error Unit
  /-- Makes the written pages of a table durable. -/
  syncTable : δ → TableId → δ × Except Error Unit

/-- What backs one table. -/
inductive Store where
  | heap (h : HeapFile)
  | detached (h : HeapFile)
deriving DecidableEq

namespace Store

/-- The heap file that holds the pages. -/
def file : Store → HeapFile
  | heap h => h
  | detached h => h

def table (s : Store) : TableId := s.file.table

end Store

/-- The registered stores and the disk below them. -/
structure Tables where
  catalog : ExtTreeMap TableId Store := ∅
  disk : Disk := {}

namespace Tables

def store (d : Tables) (t : TableId) : Except Error Store :=
  match d.catalog[t]? with
  | some s => .ok s
  | none => .error (.noSuchTable t)

/-- Registers a store for its table, in the place of an earlier one. -/
def register (d : Tables) (s : Store) : Tables := { d with catalog := d.catalog.insert s.table s }

def readPage (d : Tables) (p : PageId) : Except Error Page :=
  match d.store p.table with
  | .error e => .error e
  | .ok s => s.file.readPage d.disk p

def writePage (d : Tables) (page : Page) : Tables × Except Error Unit :=
  match d.store page.id.table with
  | .error e => (d, .error e)
  | .ok s =>
    let (disk, r) := s.file.writePage d.disk page
    ({ d with disk }, r)

def syncTable (d : Tables) (t : TableId) : Tables × Except Error Unit :=
  match d.store t with
  | .error e => (d, .error e)
  | .ok s =>
    let (disk, r) := s.file.sync d.disk
    ({ d with disk }, r)

instance : Storage Tables where
  readPage d p := (d, d.readPage p)
  writePage := writePage
  syncTable := syncTable

end Tables

end PageEngine
