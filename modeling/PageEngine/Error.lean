import PageEngine.Id

/-!
# `Error.lean` — why a request can fail

An `Error` is a cause. Its wording is in one place, `Error.message`, and a cause that arises in the
engine itself has a name here, so that a rule elsewhere says `Error.everyPageDirty` and not a text.
-/

set_option autoImplicit false

namespace PageEngine

/-- Why a request failed. -/
inductive Error where
  /-- Waiting for the lock would have closed a cycle, so the transaction has to abort. -/
  | aborted (txn : TxnId)
  /-- No room could be made in the cache. -/
  | poolExhausted (why : String)
  /-- The transaction does not hold a lock on the page. -/
  | lockNotHeld (page : PageId) (txn : TxnId)
  /-- The page is not backed by its store. -/
  | invalidPage (page : PageId)
  /-- No store is registered for the table. -/
  | noSuchTable (table : TableId)
  /-- A malformed argument or state. -/
  | invalid (why : String)
  /-- Something that was asked for does not exist. -/
  | notFound (what : String)
  /-- A failure of the file below, with its text, or with none if the operating system gave a bare code. -/
  | io (text : Option String)
deriving DecidableEq, Repr

namespace Error

/-- The wording of a cause; a bare operating-system code has none. -/
def message : Error → Option String
  | aborted t => some ("transaction " ++ t.text ++ " aborted: deadlock detected")
  | poolExhausted why => some ("buffer pool exhausted: " ++ why)
  | lockNotHeld p t => some (t.text ++ " does not hold a lock on page " ++ p.text)
  | invalidPage p => some ("invalid page " ++ p.text)
  | noSuchTable t => some ("no such table " ++ t.text)
  | invalid why => some ("invalid argument: " ++ why)
  | notFound what => some (what ++ " not found")
  | io text => text.map ("IO: " ++ ·)

/-- Exactly a deadlock victim has to run its abort. -/
def isAbort : Error → Bool
  | aborted _ => true
  | _ => false

/-! ## The causes that the engine raises -/

/-- The cache is full and holds no clean page. -/
def everyPageDirty : Error := .poolExhausted "every cached page is dirty"

/-- Room is asked for in a cache that holds nothing. -/
def nothingToEvict : Error := .poolExhausted "no resident pages to evict"

/-- The page chosen for eviction could not be written. -/
def evictionWriteFailed : Error := .poolExhausted "flush of eviction victim failed"

/-- A pool must be able to hold at least one page. -/
def zeroCapacity : Error := .invalid "buffer pool capacity must be at least 1"

/-- A page is built from a buffer of another size. -/
def wrongPageSize : Error := .invalid "page buffer must be PAGE_SIZE bytes"

/-- The end of a range of bytes is not a machine offset. -/
def offsetOverflow : Error := .invalid "offset overflow"

/-- Tuples have at least one byte. -/
def zeroWidth : Error := .invalid "tuple width must be non-zero"

/-- No slot of this width fits a page, or too many do. -/
def widthDoesNotFit : Error := .invalid "tuple width does not fit a page"

/-- The slots of this width reach past the page. -/
def slotsPastPage : Error := .invalid "tuple slots reach past the page"

/-- A heap file is a whole number of pages. -/
def unalignedFile : Error := .invalid "heap file length is not page aligned"

/-- A heap file has more pages than page numbers can name. -/
def fileTooLarge : Error := .invalid "heap file too large"

/-- The tuple does not have the width of the table. -/
def wrongTupleWidth : Error := .invalid "tuple width does not match table"

/-- A tuple that was never stored is deleted. -/
def noRecordId : Error := .invalid "tuple has no record id"

/-- The tuple is stored in another table. -/
def foreignTuple : Error := .invalid "tuple belongs to another table"

/-- The page has no slot of this number. -/
def slotOutOfRange : Error := .invalid "slot out of range"

/-- The slot that should hold the tuple is free. -/
def noTuple : Error := .notFound "tuple"

/-- A log filter does not parse. -/
def invalidLogFilter : Error := .invalid "invalid log filter"

/-- Logging is installed once per process. -/
def loggingInstalled : Error := .invalid "logging already initialized"

end Error

end PageEngine
