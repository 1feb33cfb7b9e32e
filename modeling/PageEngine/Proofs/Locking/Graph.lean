import Mathlib.Data.Finite.Defs
import Mathlib.Data.Set.Finite.Basic
import Mathlib.Logic.Relation
import Mathlib.Order.WellFoundedSet
import PageEngine.Proofs.Locking.Modes

/-!
# `Proofs/Locking/Graph.lean` — the search for a cycle, and what a cycle is

`WaitGraph.hasCycleFrom` is a depth-first search that erases what it expands. Its meaning does not
mention the search:

> **`g.hasCycleFrom t` holds exactly when `t` can be reached from itself along one or more edges.**

The induction is on the search. What it carries is reachability in the graph that is *left*: a path
through an expanded transaction is not lost when that transaction is erased, because the part of the
path after its last visit starts at one of its targets, and these are on the stack.

The second half is about relations that lose or gain edges at one point only, which is how every
operation on locks changes the waiting relation.
-/

set_option autoImplicit false

namespace PageEngine

open Std Relation

namespace WaitGraph

/-- There is an edge from `a` to `b` among the targets that are left. -/
def EdgeIn (left : ExtTreeMap TxnId (ExtTreeSet TxnId)) (a b : TxnId) : Prop :=
  ∃ s, left[a]? = some s ∧ b ∈ s

def Edge (g : WaitGraph) : TxnId → TxnId → Prop := EdgeIn g.targets

theorem edgeIn_erase {left : ExtTreeMap TxnId (ExtTreeSet TxnId)} {t a b : TxnId} :
    EdgeIn (left.erase t) a b ↔ a ≠ t ∧ EdgeIn left a b := by
  simp only [EdgeIn, ExtTreeMap.getElem?_erase, Std.compare_eq_iff_eq]
  by_cases h : a = t
  · simp [h]
  · simp [h, Ne.symm h]

/-- A path either avoids leaving `t`, or goes on from a target of `t` without leaving `t` again. -/
theorem path_erase {left : ExtTreeMap TxnId (ExtTreeSet TxnId)} {t goal a : TxnId}
    {s : ExtTreeSet TxnId} (hs : left[t]? = some s) (h : ReflTransGen (EdgeIn left) a goal) :
    ReflTransGen (EdgeIn (left.erase t)) a goal ∨
      ∃ b ∈ s, ReflTransGen (EdgeIn (left.erase t)) b goal := by
  induction h using ReflTransGen.head_induction_on with
  | refl => exact .inl .refl
  | @head a b hab _ ih =>
    rcases ih with hb | hlater
    · by_cases ha : a = t
      · subst ha
        obtain ⟨s', hs', hmem⟩ := hab
        rw [hs, Option.some.injEq] at hs'
        subst hs'
        exact .inr ⟨b, hmem, hb⟩
      · exact .inl (.head (edgeIn_erase.2 ⟨ha, hab⟩) hb)
    · exact .inr hlater

/-- The search meets its goal exactly when a transaction on the stack leads there. -/
theorem reaches_iff (goal : TxnId) (left : ExtTreeMap TxnId (ExtTreeSet TxnId)) (stack : List TxnId) :
    reaches goal left stack = true ↔ ∃ a ∈ stack, ReflTransGen (EdgeIn left) a goal := by
  induction left, stack using reaches.induct goal with
  | case1 left => simp [reaches]
  | case2 left stack =>
    rw [reaches, if_pos rfl]
    simp only [true_iff]
    exact ⟨goal, by simp, .refl⟩
  | case3 left t stack hne hnone ih =>
    rw [reaches, if_neg hne]
    split
    · rw [ih]
      constructor
      · rintro ⟨a, ha, hpath⟩
        exact ⟨a, List.mem_cons_of_mem t ha, hpath⟩
      · rintro ⟨a, ha, hpath⟩
        rcases List.mem_cons.1 ha with rfl | ha
        · -- `t` has no edges and is not the goal.
          rcases hpath.cases_head with heq | ⟨b, ⟨s, hs, -⟩, -⟩
          · exact absurd heq hne
          · rw [hnone] at hs
            cases hs
        · exact ⟨a, ha, hpath⟩
    · rename_i s hs
      rw [hnone] at hs
      cases hs
  | case4 left t stack hne s hs ih =>
    rw [reaches, if_neg hne]
    split
    · rename_i hnone
      rw [hs] at hnone
      cases hnone
    · rename_i s' hs'
      rw [hs, Option.some.injEq] at hs'
      subst hs'
      have hmono : ∀ a b, EdgeIn (left.erase t) a b → EdgeIn left a b :=
        fun a b hab => (edgeIn_erase.1 hab).2
      rw [ih]
      simp only [List.mem_append, ExtTreeSet.mem_toList]
      constructor
      · rintro ⟨a, ha | ha, hpath⟩
        · exact ⟨t, by simp, .head ⟨s, hs, ha⟩ (ReflTransGen.mono hmono _ _ hpath)⟩
        · exact ⟨a, List.mem_cons_of_mem t ha, ReflTransGen.mono hmono _ _ hpath⟩
      · rintro ⟨a, ha, hpath⟩
        rcases path_erase hs hpath with hpath' | ⟨b, hb, hpath'⟩
        · rcases List.mem_cons.1 ha with rfl | ha
          · -- A path that never leaves `a` ends at `a`, which is not the goal.
            rcases hpath'.cases_head with heq | ⟨b, hab, -⟩
            · exact absurd heq hne
            · exact absurd rfl (edgeIn_erase.1 hab).1
          · exact ⟨a, .inr ha, hpath'⟩
        · exact ⟨b, .inl hb, hpath'⟩

theorem mem_next {g : WaitGraph} {a b : TxnId} : b ∈ g.next a ↔ g.Edge a b := by
  simp only [next, Edge, EdgeIn]
  cases h : g.targets[a]? with
  | none => simp
  | some s => simp [ExtTreeSet.mem_toList]

/-- **The search for a cycle decides whether its start can be reached from itself.** -/
theorem hasCycleFrom_iff {g : WaitGraph} {t : TxnId} :
    g.hasCycleFrom t = true ↔ TransGen g.Edge t t := by
  rw [hasCycleFrom, reaches_iff, TransGen.head'_iff]
  simp only [mem_next]
  exact Iff.rfl

theorem edge_setWaits {g : WaitGraph} {t a b : TxnId} {hs : List TxnId} :
    (g.setWaits t hs).Edge a b ↔ if a = t then b ∈ hs else g.Edge a b := by
  unfold setWaits
  split
  · rename_i hnil
    rw [List.isEmpty_iff.1 hnil]
    by_cases ha : a = t
    · simp [Edge, EdgeIn, ha]
    · simp [Edge, EdgeIn, ExtTreeMap.getElem?_erase, ha, Ne.symm ha]
  · by_cases ha : a = t
    · subst ha
      simp [Edge, EdgeIn, ExtTreeSet.mem_ofList]
    · simp [Edge, EdgeIn, ExtTreeMap.getElem?_insert, ha, Ne.symm ha]

theorem edge_foldl_setWaits (holders : PageId → List TxnId) (a b : TxnId) :
    ∀ (ws : List (TxnId × PageId)) (g : WaitGraph), ws.Pairwise (fun v w => v.1 ≠ w.1) →
      ((ws.foldl (fun g w => g.setWaits w.1 (holders w.2)) g).Edge a b ↔
        (∃ p, (a, p) ∈ ws ∧ b ∈ holders p) ∨ ((∀ p, (a, p) ∉ ws) ∧ g.Edge a b)) := by
  intro ws
  induction ws with
  | nil => intro g _; simp
  | cons w ws ih =>
    intro g hd
    obtain ⟨hw, hd'⟩ := List.pairwise_cons.1 hd
    obtain ⟨t, q⟩ := w
    rw [List.foldl_cons, ih _ hd', edge_setWaits]
    by_cases ha : a = t
    · subst ha
      have hfresh : ∀ p, (a, p) ∉ ws := fun p hp => hw _ hp rfl
      simp [hfresh]
    · simp [ha]

end WaitGraph

/-! ## Waiting for a holder -/

namespace LockTable

/-- `a` waits for a page that `b` holds. -/
def WaitsFor (L : LockTable) (a b : TxnId) : Prop := ∃ p, L.waiting[a]? = some p ∧ b ∈ L.holders p

theorem edge_waitGraph {L : LockTable} {a b : TxnId} : L.waitGraph.Edge a b ↔ L.WaitsFor a b := by
  have hd : L.waiting.toList.Pairwise fun v w => v.1 ≠ w.1 := by
    refine ExtTreeMap.distinct_keys_toList.imp ?_
    intro v w hvw heq
    exact hvw (Std.compare_eq_iff_eq.2 heq)
  rw [waitGraph, ExtTreeMap.foldl_eq_foldl_toList, WaitGraph.edge_foldl_setWaits L.holders a b _ _ hd]
  simp only [ExtTreeMap.mem_toList_iff_getElem?_eq_some]
  constructor
  · rintro (⟨p, hp, hb⟩ | ⟨-, s, hs, -⟩)
    · exact ⟨p, hp, hb⟩
    · simp at hs
  · rintro ⟨p, hp, hb⟩
    exact .inl ⟨p, hp, hb⟩

/-- The search for a cycle in a table decides whether a transaction waits for itself through others. -/
theorem hasCycleFrom_iff {L : LockTable} {t : TxnId} :
    L.waitGraph.hasCycleFrom t = true ↔ TransGen L.WaitsFor t t := by
  have hrel : L.waitGraph.Edge = L.WaitsFor := by
    funext a b
    exact propext edge_waitGraph
  rw [WaitGraph.hasCycleFrom_iff, hrel]

end LockTable

/-! ## Relations without cycles -/

section Acyclic

variable {α : Type} {R R' : α → α → Prop} {t : α}

/-- Nothing is related to itself along one or more edges. -/
def Acyclic (R : α → α → Prop) : Prop := ∀ a, ¬TransGen R a a

theorem Acyclic.mono (h : Acyclic R) (hsub : ∀ a b, R' a b → R a b) : Acyclic R' :=
  fun a ha => h a (TransGen.mono hsub _ _ ha)

theorem path_off (hoff : ∀ a b, a ≠ t → b ≠ t → R' a b → R a b) {a b : α} (h : TransGen R' a b) :
    TransGen R a b ∨ (ReflTransGen R' a t ∧ ReflTransGen R' t b) := by
  induction h with
  | @single b hab =>
    by_cases ha : a = t
    · subst ha
      exact .inr ⟨.refl, .single hab⟩
    by_cases hb : b = t
    · subst hb
      exact .inr ⟨.single hab, .refl⟩
    exact .inl (.single (hoff a b ha hb hab))
  | @tail b c hab hbc ih =>
    rcases ih with hold | ⟨hat, htb⟩
    · by_cases hb : b = t
      · subst hb
        exact .inr ⟨hab.to_reflTransGen, .single hbc⟩
      by_cases hc : c = t
      · subst hc
        exact .inr ⟨hab.to_reflTransGen.tail hbc, .refl⟩
      exact .inl (hold.tail (hoff b c hb hc hbc))
    · exact .inr ⟨hat, htb.tail hbc⟩

/-- **A relation that changes at one point only stays acyclic if no cycle goes through that point.** -/
theorem Acyclic.of_off (h : Acyclic R) (hoff : ∀ a b, a ≠ t → b ≠ t → R' a b → R a b)
    (ht : ¬TransGen R' t t) : Acyclic R' := by
  intro a ha
  rcases path_off hoff ha with hold | ⟨hat, hta⟩
  · exact h a hold
  · exact ht (TransGen.trans_right hta (ha.trans_left hat))

theorem not_transGen_of_sink (h : ∀ b, ¬R t b) : ¬TransGen R t t := by
  intro hc
  obtain ⟨b, hb, -⟩ := TransGen.head'_iff.1 hc
  exact h b hb

/-- Whichever edges are followed from a point, a point with the property is met. -/
inductive AlwaysReaches (R : α → α → Prop) (goal : α → Prop) : α → Prop
  | here {a : α} : goal a → AlwaysReaches R goal a
  | onward {a : α} : (∃ b, R a b) → (∀ b, R a b → AlwaysReaches R goal b) → AlwaysReaches R goal a

/-- In an acyclic relation whose edges leave finitely many points, following edges comes to an end. -/
theorem Acyclic.wellFounded (h : Acyclic R) {s : Set α} (hs : s.Finite)
    (hdom : ∀ a b, R a b → a ∈ s) : WellFounded fun b a => R a b := by
  have hwf : s.WellFoundedOn fun b a => TransGen R a b := by
    have : IsStrictOrder α fun b a => TransGen R a b :=
      { irrefl := h, trans := fun a b c hab hbc => hbc.trans hab }
    exact hs.wellFoundedOn
  refine ⟨?_⟩
  intro a
  by_cases ha : a ∈ s
  · refine hwf.induction ha fun a _ ih => ⟨a, ?_⟩
    intro b hab
    by_cases hb : b ∈ s
    · exact ih b hb (.single hab)
    · exact ⟨b, fun c hbc => absurd (hdom b c hbc) hb⟩
  · exact ⟨a, fun c hac => absurd (hdom a c hac) ha⟩

/-- If edges come to an end, and only points with the property are ends, such a point is always met. -/
theorem alwaysReaches_of_wellFounded {goal : α → Prop} (hwf : WellFounded fun b a => R a b)
    (hend : ∀ a, (∀ b, ¬R a b) → goal a) (a : α) : AlwaysReaches R goal a := by
  induction a using hwf.induction with
  | _ a ih =>
    by_cases hedge : ∃ b, R a b
    · exact .onward hedge ih
    · exact .here (hend a fun b hab => hedge ⟨b, hab⟩)

end Acyclic

end PageEngine
