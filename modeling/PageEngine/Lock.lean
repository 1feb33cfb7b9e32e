import Std.Data.ExtTreeSet
import PageEngine.Error

/-!
# `Lock.lean` — the lock of one page

A lock is free, or held by one transaction exclusively, or held by a set of transactions that share
it. `Lock.tryAcquire` never waits: it gives the lock after the grant, or `none` when the request is
refused, in which case nothing changes. Waiting belongs to the lock table.

> **the state is a map from transactions to modes**: `Lock.modeOf` is that map, and `holders`,
> `holds` and `isFree` are read off it.
-/

set_option autoImplicit false

namespace PageEngine

open Std

structure Lock where
  /-- The transactions that share the page. -/
  sharers : ExtTreeSet TxnId := ∅
  /-- The transaction that holds the page alone. -/
  owner : Option TxnId := none

namespace Lock

def free : Lock := {}

/-- Grants the request, or refuses it. An owner is granted whatever it asks for and stays owner; the
only sharer becomes owner when it asks to. -/
def tryAcquire (l : Lock) (t : TxnId) (m : Mode) : Option Lock :=
  match l.owner, m with
  | some h, _ => if h = t then some l else none
  | none, .shared => some { l with sharers := l.sharers.insert t }
  | none, .exclusive =>
    if l.sharers.isEmpty then some { l with owner := some t }
    else if l.sharers.size = 1 ∧ t ∈ l.sharers then some { sharers := ∅, owner := some t }
    else none

/-- Ends the hold of a transaction, or `none` if it has none. -/
def release? (l : Lock) (t : TxnId) : Option Lock :=
  if l.owner = some t then some { l with owner := none }
  else if t ∈ l.sharers then some { l with sharers := l.sharers.erase t }
  else none

/-- `release?` with the cause of its failure; `p` is the page of the lock. -/
def release (l : Lock) (p : PageId) (t : TxnId) : Except Error Lock :=
  match l.release? t with
  | some l => .ok l
  | none => .error (.lockNotHeld p t)

/-- The transactions that hold the lock, in ascending order. -/
def holders (l : Lock) : List TxnId :=
  match l.owner with
  | some h => [h]
  | none => l.sharers.toList

/-- The mode in which a transaction holds the lock. -/
def modeOf (l : Lock) (t : TxnId) : Option Mode :=
  match l.owner with
  | some h => if h = t then some .exclusive else none
  | none => if t ∈ l.sharers then some .shared else none

def holds (l : Lock) (t : TxnId) : Bool := (l.modeOf t).isSome

def isFree (l : Lock) : Bool := l.owner.isNone && l.sharers.isEmpty

end Lock

end PageEngine
