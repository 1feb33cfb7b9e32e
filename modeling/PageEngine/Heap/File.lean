import PageEngine.File.Disk
import PageEngine.Heap.Layout

/-!
# `Heap/File.lean` — the pages of one table in one file

A heap file lays the pages of a table one after another in a file; the number of pages is the length of
the file in whole pages. A page can be read if its number lies below that, and writing page `n` puts its
contents at its offset.

> **growing appends one page of zeros**, unless somebody else has grown the file in the meantime.
-/

set_option autoImplicit false

namespace PageEngine

/-- A table of fixed-width tuples in a file. -/
structure HeapFile where
  table : TableId
  file : FileRef
  layout : SlotLayout
deriving DecidableEq

namespace HeapFile

/-- The heap file over an existing file, which has to be a whole number of pages. A shape that is no layout is
one of tuples that no memory holds, and no heap file is made over it. -/
def create (d : Disk) (table : TableId) (file : FileRef) (width : Nat) : Except Error HeapFile :=
  match SlotLayout.ofWidth width with
  | .error e => .error e
  | .ok _ =>
    match d.len file with
    | .error e => .error e
    | .ok len =>
      if len % pageSize = 0 then
        match SlotLayout.ofWidth? width with
        | some layout => .ok { table, file, layout }
        | none => .error .slotsPastPage
      else .error .unalignedFile

/-- The number of pages, if page numbers can name it. -/
def numPages (h : HeapFile) (d : Disk) : Except Error Nat :=
  match d.len h.file with
  | .error e => .error e
  | .ok len => if len / pageSize ≤ maxPageNo then .ok (len / pageSize) else .error .fileTooLarge

def readPage (h : HeapFile) (d : Disk) (p : PageId) : Except Error Page :=
  if p.table ≠ h.table then .error (.invalidPage p)
  else
    match h.numPages d with
    | .error e => .error e
    | .ok pages =>
      -- The length is asked for before the page is looked at, so its failure comes first.
      if pages ≤ p.pageNo then .error (.invalidPage p)
      else
        match d.readAt h.file p.offset pageSize with
        | .error e => .error e
        | .ok bytes => Page.ofBytes p bytes

def writePage (h : HeapFile) (d : Disk) (page : Page) : Disk × Except Error Unit :=
  if page.id.table ≠ h.table then (d, .error (.invalidPage page.id))
  else d.writeAt h.file page.id.offset page.data.bytes

def sync (h : HeapFile) (d : Disk) : Disk × Except Error Unit := d.sync h.file

/-- Appends a page of zeros, unless the file has more pages than the caller has seen. -/
def append (h : HeapFile) (d : Disk) (seen : Nat) : Disk × Except Error Unit :=
  match h.numPages d with
  | .error e => (d, .error e)
  | .ok pages => if seen < pages then (d, .ok ()) else h.writePage d (Page.empty ⟨h.table, pages⟩)

/-- Writes pages of one content at the positions below `count`, up to the first failure. -/
def fill (h : HeapFile) (d : Disk) (data : PageData) (count : Nat) : Disk × Except Error Unit :=
  (List.range count).foldl (fun (d, r) pageNo =>
    match r with
    | .error e => (d, .error e)
    | .ok () => h.writePage d (Page.ofData ⟨h.table, pageNo⟩ data)) (d, .ok ())

end HeapFile

end PageEngine
