import PageEngine.Proofs.Locking.Graph

/-!
# `Proofs/Locking/Search.lean` — a search for a cycle, in any order

`WaitGraph.hasCycleFrom` expands the targets of a transaction in ascending order and erases what it has
expanded. A search over hashed sets meets them in some other order: it keeps a set of the transactions
that it has expanded, and a stack on which one of them may stand several times. `Search.Step` is a step of
such a search, in which the targets come in whatever order.

> **every search ends, and with the answer of `hasCycleFrom`**: what is left of the graph and the stack
> decide the answer (`Search.left`), no step changes it, and what is left of the two gets less.

The graphs are those that a sequence of updates builds, and their edges are told from the updates
(`WaitGraph.awaited`).
-/

set_option autoImplicit false

namespace PageEngine

open Std Relation

namespace WaitGraph

/-! ## Graphs that are built -/

/-- A change of the edges that leave one transaction. -/
inductive Update where
  | setWaits (waiter : TxnId) (holders : List TxnId)
  | clear (waiter : TxnId)

def update (g : WaitGraph) : Update → WaitGraph
  | .setWaits t hs => g.setWaits t hs
  | .clear t => g.clear t

/-- The graph that updates build, in their order. -/
def build (us : List Update) : WaitGraph := us.foldl update {}

/-- Whom `a` waits for after an update, when it waited for `hs` before. -/
def Update.awaited (a : TxnId) (hs : List TxnId) : Update → List TxnId
  | setWaits t hs' => if a = t then hs' else hs
  | clear t => if a = t then [] else hs

/-- Whom `a` waits for after updates: what the latest update of `a` says. -/
def awaited (us : List Update) (a : TxnId) : List TxnId := us.foldl (Update.awaited a) []

theorem edge_clear {g : WaitGraph} {t a b : TxnId} : (g.clear t).Edge a b ↔ a ≠ t ∧ g.Edge a b :=
  edgeIn_erase

theorem edge_update {g : WaitGraph} {a : TxnId} {hs : List TxnId} (h : ∀ b, g.Edge a b ↔ b ∈ hs)
    (u : Update) (b : TxnId) : (g.update u).Edge a b ↔ b ∈ u.awaited a hs := by
  cases u with
  | setWaits t hs' =>
    rw [update, edge_setWaits, Update.awaited]
    split
    · rfl
    · exact h b
  | clear t =>
    rw [update, edge_clear, Update.awaited]
    split
    · rename_i ha
      simp [ha]
    · rename_i ha
      rw [h b]
      simp [ha]

/-- **The edges of a built graph are those of the latest updates.** -/
theorem edge_build (us : List Update) (a b : TxnId) : (build us).Edge a b ↔ b ∈ awaited us a := by
  suffices h : ∀ (us : List Update) (g : WaitGraph) (hs : List TxnId), (∀ b, g.Edge a b ↔ b ∈ hs) →
      ∀ b, (us.foldl update g).Edge a b ↔ b ∈ us.foldl (Update.awaited a) hs from
    h us {} [] (fun c => by simp [Edge, EdgeIn]) b
  intro us
  induction us with
  | nil => exact fun g hs h => h
  | cons u us ih => exact fun g hs h => ih (g.update u) (u.awaited a hs) (edge_update h u)

/-! ## Searches -/

/-- Where a search for a way back to its goal has come. -/
structure Search where
  /-- The transactions that have been expanded. -/
  visited : ExtTreeSet TxnId := ∅
  /-- The transactions that were met and not looked at yet, the next one first. -/
  stack : List TxnId

namespace Search

/-- A search takes the next transaction from its stack. One that has been expanded before is passed over;
of another one the targets that have not been expanded go onto the stack, in any order. -/
inductive Step (g : WaitGraph) (goal : TxnId) : Search → Search → Prop
  | pass {v : ExtTreeSet TxnId} {t : TxnId} {stack : List TxnId} :
      t ≠ goal → t ∈ v → Step g goal ⟨v, t :: stack⟩ ⟨v, stack⟩
  | expand {v : ExtTreeSet TxnId} {t : TxnId} {stack ts : List TxnId} :
      t ≠ goal → t ∉ v → ts.Perm ((g.next t).filter fun b => !(v.insert t).contains b) →
      Step g goal ⟨v, t :: stack⟩ ⟨v.insert t, ts ++ stack⟩

/-- The answer of a search that has come to its end. -/
inductive Answers (goal : TxnId) : Search → Bool → Prop
  | found {v : ExtTreeSet TxnId} {stack : List TxnId} : Answers goal ⟨v, goal :: stack⟩ true
  | exhausted {v : ExtTreeSet TxnId} : Answers goal ⟨v, []⟩ false

variable {g : WaitGraph} {goal : TxnId} {s s' : Search}

/-- What is left of the graph to search. -/
def left (g : WaitGraph) (v : ExtTreeSet TxnId) : ExtTreeMap TxnId (ExtTreeSet TxnId) :=
  g.targets.filter fun t _ => !v.contains t

theorem getElem?_left (g : WaitGraph) (v : ExtTreeSet TxnId) (t : TxnId) :
    (left g v)[t]? = if t ∈ v then none else g.targets[t]? := by
  have hfilter : (left g v)[t]? = g.targets[t]?.filter fun _ => !v.contains t := by simp [left]
  rw [hfilter]
  split
  · rename_i ht
    simp [ExtTreeSet.contains_iff_mem.2 ht]
  · rename_i ht
    have hout : v.contains t = false := Bool.eq_false_iff.2 fun h => ht (ExtTreeSet.contains_iff_mem.1 h)
    cases g.targets[t]? <;> simp [hout]

theorem left_empty (g : WaitGraph) : left g ∅ = g.targets :=
  ExtTreeMap.ext_getElem? fun t => by simp [getElem?_left]

theorem left_insert (g : WaitGraph) (v : ExtTreeSet TxnId) (t : TxnId) :
    left g (v.insert t) = (left g v).erase t := by
  refine ExtTreeMap.ext_getElem? fun a => ?_
  simp only [getElem?_left, ExtTreeMap.getElem?_erase, ExtTreeSet.mem_insert, Std.compare_eq_iff_eq]
  by_cases ha : t = a <;> simp [ha]

/-- What the search function of the graph answers from here. -/
def verdict (g : WaitGraph) (goal : TxnId) (s : Search) : Bool := reaches goal (left g s.visited) s.stack

/-- Targets that have been expanded lead nowhere. -/
theorem reaches_unvisited {v : ExtTreeSet TxnId} (hgoal : goal ∉ v) {ts us stack : List TxnId}
    (hts : ts.Perm (us.filter fun b => !v.contains b)) :
    reaches goal (left g v) (ts ++ stack) = reaches goal (left g v) (us ++ stack) := by
  have hmem : ∀ a, a ∈ ts ↔ a ∈ us ∧ a ∉ v := fun a => by
    rw [hts.mem_iff, List.mem_filter, Bool.not_eq_true', Bool.eq_false_iff, ne_eq, ExtTreeSet.contains_iff_mem]
  rw [Bool.eq_iff_iff, reaches_iff, reaches_iff]
  simp only [List.mem_append, hmem]
  constructor
  · rintro ⟨a, ⟨ha, -⟩ | ha, hpath⟩
    · exact ⟨a, .inl ha, hpath⟩
    · exact ⟨a, .inr ha, hpath⟩
  · rintro ⟨a, ha | ha, hpath⟩
    · refine ⟨a, .inl ⟨ha, fun hv => ?_⟩, hpath⟩
      rcases hpath.cases_head with rfl | ⟨b, ⟨x, hx, -⟩, -⟩
      · exact hgoal hv
      · simp [getElem?_left, hv] at hx
    · exact ⟨a, .inr ha, hpath⟩

/-- **A step changes neither the answer** nor that the goal is still to be met. -/
theorem Step.verdict (h : Step g goal s s') (hgoal : goal ∉ s.visited) :
    goal ∉ s'.visited ∧ s'.verdict g goal = s.verdict g goal := by
  cases h with
  | @pass v t stack hne hv =>
    refine ⟨hgoal, ?_⟩
    rw [Search.verdict, Search.verdict, reaches.eq_2, if_neg hne]
    split
    · rfl
    · rename_i x hx
      simp [getElem?_left, hv] at hx
  | @expand v t stack ts hne hv hts =>
    have hgoal' : goal ∉ v.insert t := by simp [hgoal, hne]
    refine ⟨hgoal', ?_⟩
    rw [Search.verdict, Search.verdict, reaches_unvisited hgoal' hts, reaches.eq_2 goal _ t stack, if_neg hne,
      left_insert]
    have hleft : (left g v)[t]? = g.targets[t]? := by rw [getElem?_left, if_neg hv]
    split
    · rename_i hnone
      have hnil : g.next t = [] := by simp only [next, ← hleft, hnone]
      have hsame : (left g v).erase t = left g v := by
        refine ExtTreeMap.ext_getElem? fun a => ?_
        by_cases ha : t = a
        · simp [← ha, hnone]
        · simp [ExtTreeMap.getElem?_erase, ha]
      rw [hnil, hsame, List.nil_append]
    · rename_i x hx
      have hnext : g.next t = x.toList := by simp only [next, ← hleft, hx]
      rw [hnext]

/-- What gets less with every step: the transactions with targets that are left, and then the stack. -/
def measure (g : WaitGraph) (s : Search) : Nat × Nat := ((left g s.visited).size, s.stack.length)

theorem Step.measure (h : Step g goal s s') :
    Prod.Lex (· < ·) (· < ·) (s'.measure g) (s.measure g) := by
  cases h with
  | pass hne hv => exact .right _ (Nat.lt_succ_self _)
  | @expand v t stack ts hne hv hts =>
    have hleft : (left g v)[t]? = g.targets[t]? := by rw [getElem?_left, if_neg hv]
    simp only [Search.measure, left_insert, ExtTreeMap.size_erase]
    split
    · rename_i ht
      have hpos : (left g v).size ≠ 0 := fun h0 => by
        have hempty := ExtTreeMap.eq_empty_iff_size_eq_zero.2 h0
        simp [hempty] at ht
      exact .left _ _ (by omega)
    · -- Without targets nothing goes onto the stack.
      rename_i ht
      have hnone : g.targets[t]? = none := by
        rw [← hleft]
        simpa using ht
      have hnil : ts = [] := by
        have hts' := hts
        simp only [next, hnone, List.filter_nil] at hts'
        exact hts'.eq_nil
      rw [hnil, List.nil_append]
      exact .right _ (Nat.lt_succ_self _)

/-- **No search goes on for ever.** -/
theorem step_wellFounded (g : WaitGraph) (goal : TxnId) :
    WellFounded fun s' s : Search => Step g goal s s' :=
  Subrelation.wf (fun h => h.measure)
    (InvImage.wf (measure g) (Prod.lex Nat.lt_wfRel Nat.lt_wfRel).wf)

/-- A search has come to its end or goes on. -/
theorem answers_or_step (g : WaitGraph) (goal : TxnId) (s : Search) :
    (∃ b, Answers goal s b) ∨ ∃ s', Step g goal s s' := by
  rcases s with ⟨v, stack⟩
  cases stack with
  | nil => exact .inl ⟨false, .exhausted⟩
  | cons t stack =>
    by_cases ht : t = goal
    · exact .inl ⟨true, ht ▸ .found⟩
    by_cases hv : t ∈ v
    · exact .inr ⟨_, .pass ht hv⟩
    · exact .inr ⟨_, .expand ht hv (.refl _)⟩

theorem Answers.eq_verdict {b : Bool} (h : Answers goal s b) : b = s.verdict g goal := by
  cases h with
  | found => rw [verdict, reaches.eq_2, if_pos rfl]
  | exhausted => rw [verdict, reaches.eq_1]

/-- A search that has answered makes no step any more. -/
theorem Answers.not_step {b : Bool} (h : Answers goal s b) : ¬Step g goal s s' := by
  intro hstep
  cases h with
  | found => cases hstep <;> contradiction
  | exhausted => cases hstep

/-- Whatever a search has come to, what it will answer is what it would have answered at its start. -/
theorem verdict_of_steps (h : ReflTransGen (Step g goal) s s') (hgoal : goal ∉ s.visited) :
    goal ∉ s'.visited ∧ s'.verdict g goal = s.verdict g goal := by
  induction h with
  | refl => exact ⟨hgoal, rfl⟩
  | tail _ hstep ih =>
    obtain ⟨hnext, heq⟩ := hstep.verdict ih.1
    exact ⟨hnext, heq.trans ih.2⟩

/-- The stack of a search may begin with the targets of its start in any order. -/
theorem verdict_start {stack : List TxnId} (hstack : stack.Perm (g.next goal)) :
    (Search.mk ∅ stack).verdict g goal = g.hasCycleFrom goal := by
  rw [verdict, hasCycleFrom, left_empty, Bool.eq_iff_iff, reaches_iff, reaches_iff]
  simp only [hstack.mem_iff]

end Search

/-- **Searching for a cycle decides reachability.** In the graph that updates build the function finds a
cycle exactly when its start is reached from itself by going on to somebody waited for, once or more. So
does every search that may meet the targets of a transaction in any order: it ends, and at any time it goes
on or has this answer. -/
theorem every_search_decides (us : List Update) (start : TxnId) :
    ((build us).hasCycleFrom start = true ↔ TransGen (fun a b => b ∈ awaited us a) start start) ∧
    (WellFounded fun s' s : Search => Search.Step (build us) start s s') ∧
    ∀ stack s, stack.Perm ((build us).next start) →
      ReflTransGen (Search.Step (build us) start) ⟨∅, stack⟩ s →
      (∃ s', Search.Step (build us) start s s') ∨
      ∃ b, Search.Answers start s b ∧
        (b = true ↔ TransGen (fun a b => b ∈ awaited us a) start start) := by
  have hrel : (build us).Edge = fun a b => b ∈ awaited us a := by
    funext a b
    exact propext (edge_build us a b)
  have hcycle := hasCycleFrom_iff (g := build us) (t := start)
  rw [hrel] at hcycle
  refine ⟨hcycle, Search.step_wellFounded _ _, fun stack s hstack hsteps => ?_⟩
  rcases Search.answers_or_step (build us) start s with ⟨b, hb⟩ | hnext
  · have hsame := (Search.verdict_of_steps hsteps (by simp)).2
    refine .inr ⟨b, hb, ?_⟩
    rw [hb.eq_verdict, hsame, Search.verdict_start hstack]
    exact hcycle
  · exact .inl hnext

/-- Transaction 1 waits for two others: one has come to wait for itself alone, the other waits for it. -/
def twoTargets : List Update :=
  [.setWaits ⟨2⟩ [⟨1⟩], .setWaits ⟨1⟩ [⟨2⟩, ⟨3⟩], .setWaits ⟨3⟩ [⟨1⟩], .clear ⟨2⟩, .setWaits ⟨2⟩ [⟨2⟩]]

/-- There a search that looks at the wrong one first has passed over it, and answers with the other. -/
theorem every_search_decides_detour :
    (build twoTargets).hasCycleFrom ⟨1⟩ = true ∧
    TransGen (fun a b => b ∈ awaited twoTargets a) ⟨1⟩ ⟨1⟩ ∧
    [⟨2⟩, ⟨3⟩].Perm ((build twoTargets).next ⟨1⟩) ∧
    ∃ b, Search.Answers ⟨1⟩ ⟨((∅ : ExtTreeSet TxnId).insert ⟨2⟩).insert ⟨3⟩, [⟨1⟩]⟩ b ∧
      (b = true ↔ TransGen (fun a b => b ∈ awaited twoTargets a) ⟨1⟩ ⟨1⟩) := by
  obtain ⟨hcycle, -, hsearch⟩ := every_search_decides twoTargets ⟨1⟩
  have hfound : (build twoTargets).hasCycleFrom ⟨1⟩ = true := by cbv
  have hstack : [⟨2⟩, ⟨3⟩].Perm ((build twoTargets).next ⟨1⟩) := by
    have hnext : (build twoTargets).next ⟨1⟩ = [⟨2⟩, ⟨3⟩] := by cbv
    rw [hnext]
  have hfirst : Search.Step (build twoTargets) ⟨1⟩ ⟨∅, [⟨2⟩, ⟨3⟩]⟩
      ⟨(∅ : ExtTreeSet TxnId).insert ⟨2⟩, [] ++ [⟨3⟩]⟩ := by
    refine .expand (by decide) (by simp) ?_
    have hnil : ((build twoTargets).next ⟨2⟩).filter
        (fun b => !((∅ : ExtTreeSet TxnId).insert ⟨2⟩).contains b) = [] := by cbv
    rw [hnil]
  have hsecond : Search.Step (build twoTargets) ⟨1⟩ ⟨(∅ : ExtTreeSet TxnId).insert ⟨2⟩, [⟨3⟩]⟩
      ⟨((∅ : ExtTreeSet TxnId).insert ⟨2⟩).insert ⟨3⟩, [⟨1⟩] ++ []⟩ := by
    refine .expand (by decide) (by simp) ?_
    have hone : ((build twoTargets).next ⟨3⟩).filter
        (fun b => !(((∅ : ExtTreeSet TxnId).insert ⟨2⟩).insert ⟨3⟩).contains b) = [⟨1⟩] := by cbv
    rw [hone]
  refine ⟨hfound, hcycle.1 hfound, hstack, ?_⟩
  refine (hsearch _ _ hstack ((ReflTransGen.single hfirst).tail hsecond)).resolve_left ?_
  rintro ⟨s', hstep⟩
  exact Search.Answers.found.not_step hstep

end WaitGraph

end PageEngine
