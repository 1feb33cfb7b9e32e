/-!
# `Id.lean` — the names of tables, pages, records and transactions

A table is a sequence of fixed-size pages, a page is a table together with a position in it, and a
record is a page together with a slot in it. Transactions carry nothing but their identity.

> **every name has one total order**, and two names that compare equal are the same name,

so that the ordered maps and sets keyed by names are extensional. Pages are ordered by table first
and by position second; this is the order in which every list of pages is given.
-/

set_option autoImplicit false

namespace PageEngine

/-- Bytes per page. -/
def pageSize : Nat := 4096

/-- The largest number a page position can have. -/
def maxPageNo : Nat := UInt32.size - 1

structure TableId where
  raw : Nat
deriving DecidableEq, Repr

/-- Identifies one page of one table. -/
structure PageId where
  table : TableId
  /-- Position inside the table, counted from zero. -/
  pageNo : Nat
deriving DecidableEq, Repr

/-- Identifies one tuple: the page that holds it and the slot inside the page. -/
structure RecordId where
  page : PageId
  slot : Nat
deriving DecidableEq, Repr

structure TxnId where
  raw : Nat
deriving DecidableEq, Repr

/-! ## Order -/

instance : Ord TableId := ⟨compareOn TableId.raw⟩

instance : Std.TransOrd TableId := inferInstanceAs (Std.TransCmp (compareOn TableId.raw))

instance : Std.LawfulEqOrd TableId where
  eq_of_compare {a b} h := by
    have h : compare a.raw b.raw = .eq := h
    cases a; cases b
    simpa using h

instance : Ord TxnId := ⟨compareOn TxnId.raw⟩

instance : Std.TransOrd TxnId := inferInstanceAs (Std.TransCmp (compareOn TxnId.raw))

instance : Std.LawfulEqOrd TxnId where
  eq_of_compare {a b} h := by
    have h : compare a.raw b.raw = .eq := h
    cases a; cases b
    simpa using h

instance : Ord PageId := ⟨compareLex (compareOn PageId.table) (compareOn PageId.pageNo)⟩

instance : Std.TransOrd PageId :=
  inferInstanceAs (Std.TransCmp (compareLex (compareOn PageId.table) (compareOn PageId.pageNo)))

instance : Std.LawfulEqOrd PageId where
  eq_of_compare {a b} h := by
    have h' : compareLex (compareOn PageId.table) (compareOn PageId.pageNo) a b = .eq := h
    cases a; cases b
    simpa [compareLex_eq_eq, compareOn] using h'

/-! ## Text -/

namespace TableId

/-- Written as its number. -/
def text (t : TableId) : String := toString t.raw

def describe (t : TableId) : String := "TableId(" ++ t.text ++ ")"

end TableId

namespace PageId

/-- Written as `table:position`. -/
def text (p : PageId) : String := p.table.text ++ ":" ++ toString p.pageNo

def describe (p : PageId) : String :=
  "PageId \x7b table: " ++ p.table.describe ++ ", page_no: " ++ toString p.pageNo ++ " \x7d"

/-- The pages of a list in ascending order, repetitions kept. -/
def sorted (ps : List PageId) : List PageId := ps.mergeSort fun a b => (compare a b).isLE

/-- Byte offset of the page inside the file of its table. -/
def offset (p : PageId) : Nat := p.pageNo * pageSize

end PageId

namespace RecordId

/-- Written as `table:position:slot`. -/
def text (r : RecordId) : String := r.page.text ++ ":" ++ toString r.slot

end RecordId

namespace TxnId

/-- Written as `txn#` and its number. -/
def text (t : TxnId) : String := "txn#" ++ toString t.raw

def describe (t : TxnId) : String := "TxnId(" ++ toString t.raw ++ ")"

end TxnId

/-! ## Fresh transactions -/

/-- Hands out transaction identities that were never handed out before. -/
structure TxnSupply where
  /-- The identity that is given next. -/
  next : Nat := 1
deriving Repr

namespace TxnSupply

/-- One fresh identity. -/
def take (s : TxnSupply) : TxnId × TxnSupply := (⟨s.next⟩, ⟨s.next + 1⟩)

/-- The given number of fresh identities, in the order in which they are taken. -/
def takeMany (s : TxnSupply) : Nat → List TxnId × TxnSupply
  | 0 => ([], s)
  | n + 1 =>
    let (t, s) := s.take
    let (ts, s) := s.takeMany n
    (t :: ts, s)

end TxnSupply

/-! ## Access -/

/-- What a transaction wants to do with a page. -/
inductive Access where
  | read
  | write
deriving DecidableEq, Repr

/-- The mode in which a page is locked. -/
inductive Mode where
  /-- Compatible with other shared holders. -/
  | shared
  /-- Excludes every other holder. -/
  | exclusive
deriving DecidableEq, Repr

namespace Mode

/-- One letter per mode. -/
def text : Mode → String
  | shared => "S"
  | exclusive => "X"

/-- Two transactions may hold one page together exactly in these modes. -/
def compatible : Mode → Mode → Bool
  | shared, shared => true
  | _, _ => false

/-- The stronger of two modes. -/
def sup : Mode → Mode → Mode
  | shared, m => m
  | exclusive, _ => exclusive

end Mode

/-- Reading needs a shared lock and writing an exclusive one. -/
def Access.mode : Access → Mode
  | read => .shared
  | write => .exclusive

end PageEngine
