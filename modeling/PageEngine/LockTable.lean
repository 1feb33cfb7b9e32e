import PageEngine.Lock
import PageEngine.WaitGraph

/-!
# `LockTable.lean` — page locks, and the calls that wait for them

The table keeps a lock record for every page that somebody holds, the pages that every transaction
holds, and the page that every blocked transaction waits for. A request that cannot be granted puts
its call to sleep on the lock record it met, unless waiting would close a cycle in the wait-for graph;
then the request is refused and its transaction has to abort. There are no timeouts.

A record lives as long as its page is held. It is known by a **stamp** that no other record ever has,
because a page can be freed and locked anew while a call still sleeps on the old record. A call that
sleeps is known by a **ticket** of its own: a transaction waits for the page of its latest blocked
request, but it can have several calls asleep, on different records. A release wakes every call that
sleeps on the record; a call that is awake asks again.

> **the wait-for graph is not stored**: it is the graph of the waiting transactions and the present
> holders of the pages they wait for, and `LockTable.waitGraph` computes it.
-/

set_option autoImplicit false

namespace PageEngine

open Std

/-- The lock of a page that somebody holds, and the identity of this record. -/
structure LockRecord where
  lock : Lock
  stamp : Nat

/-- A request whose call sleeps. -/
structure Sleeper where
  txn : TxnId
  page : PageId
  mode : Mode
  /-- The stamp of the record on which the call sleeps. -/
  stamp : Nat
deriving DecidableEq, Repr

structure LockTable where
  /-- The records of the pages that are held. -/
  records : ExtTreeMap PageId LockRecord := ∅
  /-- The pages that each transaction holds. -/
  held : ExtTreeMap TxnId (ExtTreeSet PageId) := ∅
  /-- The page that each blocked transaction waits for. -/
  waiting : ExtTreeMap TxnId PageId := ∅
  /-- The requests of the calls that sleep, by ticket. -/
  sleepers : ExtTreeMap Nat Sleeper := ∅
  nextStamp : Nat := 0
  nextTicket : Nat := 0

/-- What one attempt to acquire a lock leads to. -/
inductive Attempt where
  | granted
  /-- The call sleeps under this ticket until a release wakes it. -/
  | sleeps (ticket : Nat)
  /-- Waiting would close a cycle. -/
  | deadlock
deriving DecidableEq, Repr

structure LockCounts where
  locks : Nat
  waiting : Nat
  holders : Nat
deriving DecidableEq, Repr

namespace LockTable

def empty : LockTable := {}

/-! ## Queries -/

def lock (L : LockTable) (p : PageId) : Lock :=
  match L.records[p]? with
  | some r => r.lock
  | none => Lock.free

/-- The transactions that hold a page, in ascending order. -/
def holders (L : LockTable) (p : PageId) : List TxnId := (L.lock p).holders

def modeOf (L : LockTable) (p : PageId) (t : TxnId) : Option Mode := (L.lock p).modeOf t

def holds (L : LockTable) (p : PageId) (t : TxnId) : Bool := (L.modeOf p t).isSome

def heldSet (L : LockTable) (t : TxnId) : ExtTreeSet PageId := L.held[t]?.getD ∅

/-- The pages that a transaction holds, in ascending order. -/
def heldPages (L : LockTable) (t : TxnId) : List PageId := (L.heldSet t).toList

/-- The graph of the blocked transactions and the holders of the pages they wait for. -/
def waitGraph (L : LockTable) : WaitGraph :=
  L.waiting.foldl (fun g t p => g.setWaits t (L.holders p)) {}

/-- Every pair of a blocked transaction and a holder of the page it waits for, in ascending order. -/
def waitEdges (L : LockTable) : List (TxnId × TxnId) := L.waitGraph.edges

def sleeps (L : LockTable) (ticket : Nat) : Bool := L.sleepers.contains ticket

def counts (L : LockTable) : LockCounts := ⟨L.records.size, L.waiting.size, L.held.size⟩

/-! ## Acquiring -/

/-- The record that a request for a page meets: the present one, or a fresh free one. -/
def recordFor (L : LockTable) (p : PageId) : LockRecord :=
  L.records[p]?.getD ⟨Lock.free, L.nextStamp⟩

def stopWaiting (L : LockTable) (t : TxnId) : LockTable := { L with waiting := L.waiting.erase t }

/-- Enters a granted lock into the records and into the pages that `t` holds. -/
def grant (L : LockTable) (p : PageId) (t : TxnId) (r : LockRecord) (l : Lock) : LockTable :=
  { L.stopWaiting t with
    records := L.records.insert p { r with lock := l }
    held := L.held.insert t ((L.heldSet t).insert p)
    nextStamp := max L.nextStamp (r.stamp + 1) }

/-- Puts a call to sleep under a fresh ticket. -/
def putToSleep (L : LockTable) (s : Sleeper) : LockTable × Attempt :=
  ({ L with sleepers := L.sleepers.insert L.nextTicket s, nextTicket := L.nextTicket + 1 },
    .sleeps L.nextTicket)

/-- One attempt of `t` to lock `p` in mode `m`: it is granted, or the call goes to sleep on the record
of the page, or sleeping would close a cycle of waiting transactions. -/
def attempt (L : LockTable) (p : PageId) (t : TxnId) (m : Mode) : LockTable × Attempt :=
  let r := L.recordFor p
  match r.lock.tryAcquire t m with
  | some l => (L.grant p t r l, .granted)
  | none =>
    -- The request is entered first, so that a transaction that shares the page waits for itself.
    let W := { L with waiting := L.waiting.insert t p }
    if W.waitGraph.hasCycleFrom t then (W.stopWaiting t, .deadlock)
    else W.putToSleep ⟨t, p, m, r.stamp⟩

/-! ## Releasing -/

/-- Wakes every call that sleeps on the record with this stamp. -/
def wake (L : LockTable) (stamp : Nat) : LockTable :=
  { L with sleepers := L.sleepers.filter fun _ s => s.stamp != stamp }

/-- Ends the hold of `t` on the record of `p` and wakes the calls that sleep on it. A record that
becomes free is dropped. -/
def releaseRecord (L : LockTable) (p : PageId) (t : TxnId) : Except Error LockTable :=
  match L.records[p]? with
  | none => .error (.lockNotHeld p t)
  | some r =>
    match r.lock.release p t with
    | .error e => .error e
    | .ok l =>
      .ok { L.wake r.stamp with
        records := if l.isFree then L.records.erase p else L.records.insert p { r with lock := l } }

def dropHeld (L : LockTable) (p : PageId) (t : TxnId) : LockTable :=
  let rest := (L.heldSet t).erase p
  { L with held := if rest.isEmpty then L.held.erase t else L.held.insert t rest }

def release (L : LockTable) (p : PageId) (t : TxnId) : LockTable × Except Error Unit :=
  if p ∈ L.heldSet t then
    let D := L.dropHeld p t
    match D.releaseRecord p t with
    | .ok R => (R, .ok ())
    | .error e => (D, .error e)
  else (L, .error (.lockNotHeld p t))

/-- Releases the records of the pages in the list, up to the first failure. -/
def releaseRecords (L : LockTable) (t : TxnId) : List PageId → LockTable × Except Error Unit
  | [] => (L, .ok ())
  | p :: ps =>
    match L.releaseRecord p t with
    | .ok R => R.releaseRecords t ps
    | .error e => (L, .error e)

/-- Releases every page that `t` holds, and forgets what it waits for. The calls of `t` that sleep go
on sleeping. -/
def releaseAll (L : LockTable) (t : TxnId) : LockTable × Except Error Unit :=
  let ps := L.heldPages t
  let D := { L.stopWaiting t with held := L.held.erase t }
  D.releaseRecords t ps

end LockTable

end PageEngine
