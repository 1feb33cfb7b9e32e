import PageEngine.Call
import PageEngine.Proofs.Storage.Contents
import PageEngine.Proofs.World.History

/-!
# `Proofs/World/Basic.lean` — runs of a pool with many transactions

A run of a pool by any number of transactions, each with at most one call in flight. A step begins a
call of a transaction that has none, or runs the next section of a call, of whichever transaction; so
every order of sections is the order of some run. What a step did goes into the history.

A client that changes a page by itself takes it for writing, computes its new contents and marks it, all
in the section that fetches the page. Such a call is a `Task` with a rule.

> **locks are asked for and given back only by calls**: there is no step that releases a page or writes
> one early.
-/

set_option autoImplicit false

namespace PageEngine

open Std

theorem Call.result?_eq_some {c : Call} {res : Except Error Answer} :
    c.result? = some res ↔ c.activity = .finished res := by
  unfold Call.result?
  split
  · rename_i x hx
    rw [hx, Option.some.injEq, Activity.finished.injEq]
  · rename_i hno
    exact ⟨fun h => (by cases h), fun h => (hno res h).elim⟩

/-- A call in flight. -/
structure Task where
  call : Call
  /-- How the client changes the page that the call gets, if it does. -/
  rule : Option Rule := none
  /-- What the call has put into a page that it has not installed yet. -/
  draft : Option PageData := none

namespace Task

/-- What the next section of a task is seen to do, when it turns the pool `P` into `P'` and the call
into `c`. -/
def events (k : Task) (P P' : Pool Tables) (c : Call) : List Event :=
  match k.call.activity with
  | .start (.complete commit) => [.ended k.call.txn commit]
  | .working p f _ => [.got k.call.txn p (P.page f).data]
  | .growing i =>
    if P'.storage.pages i.heap.table = P.storage.pages i.heap.table then []
    else [.appended ⟨i.heap.table, P.storage.pages i.heap.table⟩]
  | .installing (f :: _) =>
    match c.result?, k.draft with
    | none, some d => [.stored k.call.txn (P.page f).id d]
    | _, _ => []
  | _ => []

/-- The draft after the next section, which turns the pool into `P'`. -/
def nextDraft (k : Task) (P' : Pool Tables) : Option PageData :=
  match k.call.activity with
  | .working _ f _ => some (P'.page f).data
  | _ => k.draft

/-- What is left of the task after a section that turns the pool into `P'` and the call into `c`: a call
with its result leaves. -/
def after (k : Task) (P' : Pool Tables) (c : Call) : Option Task :=
  if c.result?.isSome then none else some { k with call := c, draft := k.nextDraft P' }

end Task

/-- A pool, the calls in flight and what happened before. -/
structure World where
  pool : Pool Tables
  tasks : TxnId → Option Task
  history : History

/-- What can happen next. -/
inductive Action where
  /-- A transaction makes a request. -/
  | request (t : TxnId) (r : Request)
  /-- A transaction takes a page for writing and overwrites it by a rule. -/
  | edit (t : TxnId) (p : PageId) (rule : Rule)
  /-- The call of a transaction runs its next section. -/
  | advance (t : TxnId)
  /-- A heap file is registered for its table. -/
  | register (h : HeapFile)

namespace World

/-- A pool at which nobody is. -/
def start (P : Pool Tables) : World := ⟨P, fun _ => none, []⟩

def setTask (w : World) (t : TxnId) (k : Option Task) : World :=
  { w with tasks := Function.update w.tasks t k }

/-- Runs a section of a call. The call leaves when it has its result. -/
def runSection (w : World) (t : TxnId) (k : Task) : World :=
  let (P, c) := k.call.step w.pool
  { pool := P
    tasks := Function.update w.tasks t (k.after P c)
    history := k.events w.pool P c ++ w.history }

/-- Fetches a page, overwrites it by a rule and marks it. -/
def editPage (w : World) (t : TxnId) (p : PageId) (rule : Rule) : World :=
  match w.pool.fetch p with
  | (P, .error _) => { w.setTask t none with pool := P }
  | (P, .ok f) =>
    let page := P.page f
    let d := rule (History.reads t w.history ++ [page.data])
    { pool := P.setPage f ((page.withData d).markDirty t)
      tasks := Function.update w.tasks t none
      history := .edited t p rule d :: .got t p page.data :: w.history }

/-- Runs the next section of the call of `t`, if it has one. -/
def advance (w : World) (t : TxnId) : World :=
  match w.tasks t with
  | none => w
  | some k =>
    match k.rule, k.call.activity with
    | some rule, .fetching p _ => w.editPage t p rule
    | _, _ => w.runSection t k

def act (w : World) : Action → World
  | .request t r => w.setTask t (some { call := Call.ofRequest t r })
  | .edit t p rule => w.setTask t (some { call := Call.ofRequest t (.get p .write), rule })
  | .advance t => w.advance t
  | .register h =>
    { w with
      pool := { w.pool with storage := w.pool.storage.register (.heap h) }
      history := .registered h.table (w.pool.storage.disk.bytes h.file.name) :: w.history }

end World

namespace Action

/-- A transaction makes a request when it has no call in flight, and a table is registered once. -/
def Enabled (w : World) : Action → Prop
  | request t _ => w.tasks t = none
  | edit t _ _ => w.tasks t = none
  | advance _ => True
  | register h => w.pool.storage.Fresh h

/-- The action leaves the bytes of a store to the pool. -/
def ThroughPool : Action → Prop
  | request _ (.insertInto ..) => False
  | request _ (.deleteFrom ..) => False
  | _ => True

/-- The action belongs to a transaction that reads and overwrites whole pages. -/
def PageWise : Action → Prop
  | request _ (.get ..) => True
  | request _ (.complete _) => True
  | edit .. => True
  | advance _ => True
  | _ => False

theorem PageWise.throughPool {a : Action} (ha : a.PageWise) : a.ThroughPool := by
  cases a with
  | request t r =>
    cases r with
    | insertInto s tuple => exact ha
    | deleteFrom s tuple => exact ha
    | _ => trivial
  | edit t p rule => trivial
  | advance t => trivial
  | register file => trivial

end Action

/-- The worlds to which runs of a new pool come whose actions are all of one kind. -/
inductive World.Reachable (kind : Action → Prop) (P : Pool Tables) : World → Prop
  | start : Reachable kind P (World.start P)
  | step {w : World} {a : Action} :
      Reachable kind P w → a.Enabled w → kind a → Reachable kind P (w.act a)

theorem World.Reachable.mono {kind kind' : Action → Prop} (h : ∀ a, kind a → kind' a) {P : Pool Tables}
    {w : World} (hw : Reachable kind P w) : Reachable kind' P w := by
  induction hw with
  | start => exact .start
  | step _ hen ha ih => exact ih.step hen (h _ ha)

end PageEngine
