import PageEngine.Pool.Cache

/-!
# `Pool/Completion.lean` — the end of a transaction

A commit writes the dirty pages that the transaction holds, syncs the tables that were written, and makes
the contents of every held page its before-image. An abort brings back the before-image of every page
that the transaction holds exclusively, and writes nothing. Either way the locks are released, and the
failure of a write or sync is reported after that.
-/

set_option autoImplicit false

namespace PageEngine

open Std

namespace Pool

variable {δ : Type} [Storage δ]

/-- Writes the listed pages that are resident and captures each of them, up to the first failed write.
`written` collects the tables that were written, in the order of their first write. -/
def flushHeldIn (P : Pool δ) (written : List TableId) :
    List PageId → Pool δ × Except Error (List TableId)
  | [] => (P, .ok written)
  | p :: ps =>
    match P.resident[p]? with
    | none => P.flushHeldIn written ps
    | some f =>
      match P.writeBack f with
      | (P, .error e) => (P, .error e)
      | (P, .ok wrote) =>
        let P := P.setPage f (P.page f).capture
        P.flushHeldIn (if wrote && !written.contains p.table then written ++ [p.table] else written) ps

/-- Syncs the listed tables, up to the first failure. -/
def syncTables (P : Pool δ) : List TableId → Pool δ × Except Error Unit
  | [] => (P, .ok ())
  | t :: ts =>
    let (storage, r) := Storage.syncTable P.storage t
    let P := { P with storage }
    match r with
    | .error e => (P, .error e)
    | .ok () => P.syncTables ts

/-- Writes the dirty pages that `t` holds in ascending order, captures every page that it holds, and
syncs each table that was written once. -/
def flushHeld (P : Pool δ) (t : TxnId) : Pool δ × Except Error Unit :=
  match P.flushHeldIn [] (P.locks.heldPages t) with
  | (P, .error e) => (P, .error e)
  | (P, .ok written) => P.syncTables written

/-- Brings back the before-image of a page if it is resident and `t` holds it exclusively. -/
def restorePage (P : Pool δ) (t : TxnId) (p : PageId) : Pool δ :=
  if P.locks.modeOf p t = some .exclusive then
    match P.resident[p]? with
    | some f => P.setPage f (P.page f).restore
    | none => P
  else P

def restoreHeld (P : Pool δ) (t : TxnId) : Pool δ :=
  (P.locks.heldPages t).foldl (fun P p => P.restorePage t p) P

/-- What a commit or an abort does to the pages of a transaction. -/
def settlePages (P : Pool δ) (t : TxnId) (commit : Bool) : Pool δ × Except Error Unit :=
  if commit then P.flushHeld t else (P.restoreHeld t, .ok ())

def releasePage (P : Pool δ) (p : PageId) (t : TxnId) : Pool δ × Except Error Unit :=
  let (locks, r) := P.locks.release p t
  (P.withLocks locks, r)

def releaseAll (P : Pool δ) (t : TxnId) : Pool δ × Except Error Unit :=
  let (locks, r) := P.locks.releaseAll t
  (P.withLocks locks, r)

def countEnd (P : Pool δ) (commit : Bool) : Pool δ :=
  P.tally fun c => if commit then { c with commits := c.commits + 1 } else { c with aborts := c.aborts + 1 }

/-- The first failure of two results in order. -/
def bothOk : Except Error Unit → Except Error Unit → Except Error Unit
  | .ok (), r => r
  | .error e, _ => .error e

/-- Ends a transaction without anybody else in between. -/
def complete (P : Pool δ) (t : TxnId) (commit : Bool) : Pool δ × Except Error Unit :=
  let (P, pages) := P.settlePages t commit
  let (P, released) := P.releaseAll t
  (P.countEnd commit, bothOk pages released)

end Pool

end PageEngine
