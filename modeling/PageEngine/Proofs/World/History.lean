import Mathlib.Tactic.Common
import PageEngine.Page

/-!
# `Proofs/World/History.lean` — what a run did, and what a transaction should see

A run writes down what its steps did: the pages that were handed out, the changes, and the ends of
transactions. From this record alone it is told what a page should hold for a transaction:

> **a transaction sees its own latest change of a page, and without one the change of the transaction
> that committed last among those that changed the page.**

`History.view` is this, `History.own` its first half and `History.committed` its second. A history is
**honest** if every page that was handed out was handed out so. Nothing here looks at a cache, a lock or
a file.
-/

set_option autoImplicit false

namespace PageEngine

/-- How a client computes new contents of a page from everything that its transaction has read; the
present contents of the page are the last of these. -/
abbrev Rule := List PageData → PageData

/-- What a step of a run did. -/
inductive Event where
  /-- A page was handed to a transaction with these contents. -/
  | got (t : TxnId) (p : PageId) (d : PageData)
  /-- A client has overwritten a page by a rule, with these contents. -/
  | edited (t : TxnId) (p : PageId) (rule : Rule) (d : PageData)
  /-- An insert or a delete has left a page with these contents. -/
  | stored (t : TxnId) (p : PageId) (d : PageData)
  /-- A transaction has committed or aborted. -/
  | ended (t : TxnId) (commit : Bool)
  /-- A page was added at the end of its table. -/
  | appended (p : PageId)
  /-- A file with these bytes was registered for a table. -/
  | registered (table : TableId) (bytes : Bytes)

/-- The events of a run, the latest first. -/
abbrev History := List Event

namespace History

/-- The latest change of a page by a transaction since it began. -/
def own (t : TxnId) (p : PageId) : History → Option PageData
  | [] => none
  | .edited u q _ d :: h => if u = t ∧ q = p then some d else own t p h
  | .stored u q d :: h => if u = t ∧ q = p then some d else own t p h
  | .ended u _ :: h => if u = t then none else own t p h
  | .got .. :: h => own t p h
  | .appended _ :: h => own t p h
  | .registered .. :: h => own t p h

/-- What the committed transactions have left of a page, which held `origin p` in the beginning. -/
def committed (origin : PageId → PageData) (p : PageId) : History → PageData
  | [] => origin p
  | .ended t true :: h => (own t p h).getD (committed origin p h)
  | .ended _ false :: h => committed origin p h
  | .appended q :: h => if q = p then PageData.zeros else committed origin p h
  | .registered table bytes :: h =>
    if table = p.table then PageData.ofBytes bytes p.offset else committed origin p h
  | .got .. :: h => committed origin p h
  | .edited .. :: h => committed origin p h
  | .stored .. :: h => committed origin p h

/-- What a transaction should find in a page. -/
def view (origin : PageId → PageData) (t : TxnId) (p : PageId) (h : History) : PageData :=
  (own t p h).getD (committed origin p h)

/-- Everything that a transaction was handed since it began, in this order. -/
def reads (t : TxnId) : History → List PageData
  | [] => []
  | .got u _ d :: h => if u = t then reads t h ++ [d] else reads t h
  | .ended u _ :: h => if u = t then [] else reads t h
  | .edited .. :: h => reads t h
  | .stored .. :: h => reads t h
  | .appended _ :: h => reads t h
  | .registered .. :: h => reads t h

/-- Everything that was handed to a transaction was what it should see. -/
def Honest (origin : PageId → PageData) : History → Prop
  | [] => True
  | .got t p d :: h => d = view origin t p h ∧ Honest origin h
  | .edited .. :: h => Honest origin h
  | .stored .. :: h => Honest origin h
  | .ended .. :: h => Honest origin h
  | .appended .. :: h => Honest origin h
  | .registered .. :: h => Honest origin h

theorem Honest.earlier {origin : PageId → PageData} {after before : History}
    (h : Honest origin (after ++ before)) : Honest origin before := by
  induction after with
  | nil => exact h
  | cons e after ih =>
    apply ih
    cases e with
    | got t p d => exact h.2
    | edited t p rule d => exact h
    | stored t p d => exact h
    | ended t commit => exact h
    | appended p => exact h
    | registered table bytes => exact h

end History

end PageEngine
