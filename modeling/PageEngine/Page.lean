import PageEngine.Bytes
import PageEngine.Error

/-!
# `Page.lean` — one page image

A page carries its contents, the transaction that last dirtied it if it is dirty, and a before-image:
the contents to which an abort goes back.

> **restoring brings the before-image back and cleans the page**; capturing makes the present contents
> the before-image and leaves the marker alone.
-/

set_option autoImplicit false

namespace PageEngine

structure Page where
  id : PageId
  data : PageData
  /-- The transaction that dirtied the page, if the page is dirty. -/
  dirty : Option TxnId := none
  /-- The contents that an abort brings back. -/
  beforeImage : PageData
deriving DecidableEq

namespace Page

/-- A clean page whose before-image is its contents. -/
def ofData (id : PageId) (data : PageData) : Page := { id, data, beforeImage := data }

def empty (id : PageId) : Page := ofData id PageData.zeros

instance : Inhabited Page := ⟨empty ⟨⟨0⟩, 0⟩⟩

/-- A clean page from a buffer, which has to be exactly one page long. -/
def ofBytes (id : PageId) (buffer : Bytes) : Except Error Page :=
  if h : buffer.size = pageSize then .ok (ofData id ⟨buffer, h⟩) else .error .wrongPageSize

def isClean (p : Page) : Bool := p.dirty.isNone

def withData (p : Page) (data : PageData) : Page := { p with data }

def setOwner (p : Page) (owner : Option TxnId) : Page := { p with dirty := owner }

def markDirty (p : Page) (owner : TxnId) : Page := p.setOwner (some owner)

def markClean (p : Page) : Page := p.setOwner none

/-- The clean page that the before-image describes. -/
def before (p : Page) : Page := ofData p.id p.beforeImage

/-- Makes the present contents the before-image. -/
def capture (p : Page) : Page := { p with beforeImage := p.data }

/-- Brings the before-image back and cleans the page. -/
def restore (p : Page) : Page := { p with data := p.beforeImage, dirty := none }

/-- The page for logs: its name and its marker, without its contents. -/
def describe (p : Page) : String :=
  let owner := match p.dirty with
    | some t => "Some(" ++ t.describe ++ ")"
    | none => "None"
  "Page \x7b id: " ++ p.id.describe ++ ", dirty: " ++ owner ++ ", .. \x7d"

end Page

end PageEngine
