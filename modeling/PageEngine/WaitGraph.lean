import Std.Data.ExtTreeMap
import Std.Data.ExtTreeSet
import PageEngine.Id

/-!
# `WaitGraph.lean` — who waits for whom

An edge `a → b` says that `a` is blocked on a lock that `b` holds. A transaction that waits for a lock
it shares itself has an edge to itself.

> **`hasCycleFrom start` is reachability**: it holds exactly when `start` can be reached from itself
> along one or more edges.

The search expands every transaction at most once: an expanded transaction is erased from the graph
that is left to search, so the number of transactions with outgoing edges bounds the search.
-/

set_option autoImplicit false

namespace PageEngine

open Std

/-- A wait-for graph, as the set of targets of every transaction that has any. -/
structure WaitGraph where
  targets : ExtTreeMap TxnId (ExtTreeSet TxnId) := ∅

namespace WaitGraph

/-- Replaces the outgoing edges of `waiter` by edges to `holders`. -/
def setWaits (g : WaitGraph) (waiter : TxnId) (holders : List TxnId) : WaitGraph :=
  if holders.isEmpty then ⟨g.targets.erase waiter⟩
  else ⟨g.targets.insert waiter (ExtTreeSet.ofList holders)⟩

def clear (g : WaitGraph) (waiter : TxnId) : WaitGraph := ⟨g.targets.erase waiter⟩

/-- The targets of the edges that leave `t`, in ascending order. -/
def next (g : WaitGraph) (t : TxnId) : List TxnId :=
  match g.targets[t]? with
  | some s => s.toList
  | none => []

def waitingCount (g : WaitGraph) : Nat := g.targets.size

/-- Every edge, in ascending order. -/
def edges (g : WaitGraph) : List (TxnId × TxnId) :=
  g.targets.toList.flatMap fun (a, s) => s.toList.map (a, ·)

/-- Whether `goal` is met by a depth-first search through `left` from the transactions on the stack. -/
def reaches (goal : TxnId) (left : ExtTreeMap TxnId (ExtTreeSet TxnId)) : List TxnId → Bool
  | [] => false
  | t :: stack =>
    if t = goal then true
    else
      match _h : left[t]? with
      -- Without edges, or expanded before.
      | none => reaches goal left stack
      | some s => reaches goal (left.erase t) (s.toList ++ stack)
termination_by stack => (left.size, stack.length)
decreasing_by
  · exact Prod.Lex.right _ (by simp)
  · have hm : t ∈ left := ExtTreeMap.mem_iff_isSome_getElem?.2 (by simp [*])
    have hpos : left.size ≠ 0 := fun h0 => by
      have := ExtTreeMap.eq_empty_iff_size_eq_zero.2 h0
      subst this
      simp at hm
    refine Prod.Lex.left _ _ ?_
    rw [ExtTreeMap.size_erase, if_pos (ExtTreeMap.contains_iff_mem.2 hm)]
    omega

/-- Whether `start` can be reached from itself along one or more edges. -/
def hasCycleFrom (g : WaitGraph) (start : TxnId) : Bool := reaches start g.targets (g.next start)

end WaitGraph

end PageEngine
