import Mathlib
import PageEngine.Proofs.Locking.Callers

/-!
# `Proofs/Locking/Consistency.lean` — the maps of a lock table agree

A lock manager keeps four maps in step: the lock records, the pages that each transaction holds, the
pages that blocked transactions wait for, and the wait-for graph. The first three are the fields of
`LockTable`. The graph is computed here from the other maps whenever it is looked at, whereas a manager
may keep it from call to call, redraw in it the edges of those who wait at the moment, and clear the
edges of a transaction that stops waiting. The two come to the same:

> **a kept graph has no edges but those of blocked transactions**, so that redrawing their edges in it
> gives the graph of the table (`LockTable.redraw_eq`).

`Callers.ReachableWith` is the run relation of `Callers` with a kept graph beside it, in which the search
for a cycle goes through the kept graph.
-/

set_option autoImplicit false

namespace PageEngine

open Std

namespace WaitGraph

@[ext] theorem ext {g g' : WaitGraph} (h : ∀ a : TxnId, g.targets[a]? = g'.targets[a]?) : g = g' := by
  cases g
  cases g'
  exact congrArg WaitGraph.mk (ExtTreeMap.ext_getElem? h)

theorem targets_clear (g : WaitGraph) (t a : TxnId) :
    (g.clear t).targets[a]? = if a = t then none else g.targets[a]? := by
  by_cases ha : a = t
  · simp [clear, ha]
  · simp [clear, ExtTreeMap.getElem?_erase, ha, Ne.symm ha]

/-- What `setWaits` enters for a transaction that waits for these holders. -/
def targetsFor (holders : List TxnId) : Option (ExtTreeSet TxnId) :=
  if holders.isEmpty then none else some (ExtTreeSet.ofList holders)

theorem targets_setWaits (g : WaitGraph) (t a : TxnId) (hs : List TxnId) :
    (g.setWaits t hs).targets[a]? = if a = t then targetsFor hs else g.targets[a]? := by
  unfold setWaits targetsFor
  by_cases ha : a = t
  · subst ha
    split <;> simp
  · rw [if_neg ha]
    split
    · simp [ExtTreeMap.getElem?_erase, Ne.symm ha]
    · simp [ExtTreeMap.getElem?_insert, Ne.symm ha]

theorem targets_foldl_setWaits (holders : PageId → List TxnId) (a : TxnId) :
    ∀ (ws : List (TxnId × PageId)) (g : WaitGraph), ws.Pairwise (fun v w => v.1 ≠ w.1) →
      (∀ p, (a, p) ∈ ws →
        (ws.foldl (fun g w => g.setWaits w.1 (holders w.2)) g).targets[a]? = targetsFor (holders p)) ∧
      ((∀ p, (a, p) ∉ ws) →
        (ws.foldl (fun g w => g.setWaits w.1 (holders w.2)) g).targets[a]? = g.targets[a]?) := by
  intro ws
  induction ws with
  | nil => intro g _; simp
  | cons w ws ih =>
    intro g hd
    obtain ⟨hw, hd'⟩ := List.pairwise_cons.1 hd
    obtain ⟨t, q⟩ := w
    obtain ⟨hmem, hnot⟩ := ih (g.setWaits t (holders q)) hd'
    rw [List.foldl_cons]
    constructor
    · intro p hp
      rcases List.mem_cons.1 hp with heq | hp
      · obtain ⟨rfl, rfl⟩ : a = t ∧ p = q := by simpa using heq
        -- The transaction is not met again.
        rw [hnot fun p' hp' => hw _ hp' rfl, targets_setWaits, if_pos rfl]
      · exact hmem p hp
    · intro h
      have ha : a ≠ t := fun ha => h q (by simp [ha])
      rw [hnot fun p hp => h p (List.mem_cons_of_mem _ hp), targets_setWaits, if_neg ha]

/-- The list of edges is the set of edges. -/
theorem mem_edges {g : WaitGraph} {a b : TxnId} : (a, b) ∈ g.edges ↔ g.Edge a b := by
  simp only [edges, List.mem_flatMap, List.mem_map, Prod.exists, Prod.mk.injEq,
    ExtTreeMap.mem_toList_iff_getElem?_eq_some, ExtTreeSet.mem_toList, Edge, EdgeIn]
  constructor
  · rintro ⟨a', s, hs, b', hb, rfl, rfl⟩
    exact ⟨s, hs, hb⟩
  · rintro ⟨s, hs, hb⟩
    exact ⟨a, s, hs, b, hb, rfl, rfl⟩

/-- No edge is listed twice. -/
theorem edges_nodup (g : WaitGraph) : g.edges.Nodup := by
  refine List.nodup_flatMap.2 ⟨?_, ?_⟩
  · rintro ⟨a, s⟩ -
    refine List.Nodup.map (fun b c hbc => (Prod.mk.inj hbc).2) ?_
    exact (ExtTreeSet.distinct_toList (t := s)).imp fun {b c} hbc heq => hbc (Std.compare_eq_iff_eq.2 heq)
  · refine (ExtTreeMap.distinct_keys_toList (t := g.targets)).imp ?_
    rintro ⟨a, s⟩ ⟨b, u⟩ hab e he he'
    obtain ⟨_, -, rfl⟩ := List.mem_map.1 he
    obtain ⟨_, -, heq⟩ := List.mem_map.1 he'
    exact hab (Std.compare_eq_iff_eq.2 (Prod.mk.inj heq).1.symm)

end WaitGraph

/-! ## A kept graph -/

namespace LockTable

/-- Draws the edges of everybody who waits anew, from the present holders, in a graph that was kept. -/
def redraw (L : LockTable) (g : WaitGraph) : WaitGraph :=
  L.waiting.foldl (fun g t p => g.setWaits t (L.holders p)) g

/-- The kept graph has edges only for transactions that wait. -/
def Covers (L : LockTable) (g : WaitGraph) : Prop :=
  ∀ t : TxnId, L.waiting[t]? = none → g.targets[t]? = none

theorem targets_redraw (L : LockTable) (g : WaitGraph) (t : TxnId) :
    (L.redraw g).targets[t]? =
      match L.waiting[t]? with
      | some p => WaitGraph.targetsFor (L.holders p)
      | none => g.targets[t]? := by
  have hd : L.waiting.toList.Pairwise fun v w => v.1 ≠ w.1 :=
    ExtTreeMap.distinct_keys_toList.imp fun {v w} hvw heq => hvw (Std.compare_eq_iff_eq.2 heq)
  obtain ⟨hmem, hnot⟩ := WaitGraph.targets_foldl_setWaits L.holders t _ g hd
  simp only [ExtTreeMap.mem_toList_iff_getElem?_eq_some] at hmem hnot
  rw [redraw, ExtTreeMap.foldl_eq_foldl_toList]
  cases hw : L.waiting[t]? with
  | some p => exact hmem p hw
  | none => exact hnot fun p hp => by simp [hw] at hp

/-- **Redrawing a kept graph gives the graph of the table.** -/
theorem redraw_eq {L : LockTable} {g : WaitGraph} (h : L.Covers g) : L.redraw g = L.waitGraph := by
  apply WaitGraph.ext
  intro t
  have hempty : L.waitGraph = L.redraw {} := rfl
  rw [hempty, targets_redraw, targets_redraw]
  cases hw : L.waiting[t]? with
  | some p => rfl
  | none => simp [h t hw]

theorem Covers.redraw {L : LockTable} {g : WaitGraph} (h : L.Covers g) : L.Covers (L.redraw g) := by
  intro t ht
  rw [targets_redraw, ht]
  exact h t ht

/-- A transaction that starts to wait may have edges. -/
theorem Covers.waitFor {L : LockTable} {g : WaitGraph} (h : L.Covers g) (t : TxnId) (p : PageId) :
    (L.waitFor t p).Covers g := by
  intro u hu
  apply h
  by_cases htu : t = u
  · simp [LockTable.waitFor, htu] at hu
  · simpa [LockTable.waitFor, ExtTreeMap.getElem?_insert, htu] using hu

/-- A transaction that stops waiting loses its edges. -/
theorem Covers.clear {L L' : LockTable} {g : WaitGraph} (h : L.Covers g) {t : TxnId}
    (hw : L'.waiting = L.waiting.erase t) : L'.Covers (g.clear t) := by
  intro u hu
  rw [WaitGraph.targets_clear]
  split
  · rfl
  · rename_i hne
    refine h u ?_
    simpa [hw, ExtTreeMap.getElem?_erase, Ne.symm hne] using hu

theorem Covers.congr {L L' : LockTable} {g : WaitGraph} (h : L.Covers g)
    (hw : L'.waiting = L.waiting) : L'.Covers g := fun t ht => h t (hw ▸ ht)

/-- An attempt with a kept graph `g`: the search for a cycle goes through that graph, after the edges
of everybody who waits have been drawn anew in it. -/
def attemptWith (L : LockTable) (g : WaitGraph) (p : PageId) (t : TxnId) (m : Mode) :
    LockTable × WaitGraph × Attempt :=
  let r := L.recordFor p
  match r.lock.tryAcquire t m with
  | some l => (L.grant p t r l, g.clear t, .granted)
  | none =>
    let W := L.waitFor t p
    let drawn := W.redraw g
    if drawn.hasCycleFrom t then (W.stopWaiting t, drawn.clear t, .deadlock)
    else
      let (S, a) := W.putToSleep ⟨t, p, m, r.stamp⟩
      (S, drawn, a)

/-- **An attempt that searches the kept graph is the attempt that searches the graph of the table.** -/
theorem attemptWith_eq {L : LockTable} {g : WaitGraph} (h : L.Covers g) (p : PageId) (t : TxnId)
    (m : Mode) :
    ∃ g', L.attemptWith g p t m = ((L.attempt p t m).1, g', (L.attempt p t m).2) ∧
      (L.attempt p t m).1.Covers g' := by
  have hwait := h.waitFor t p
  have hdrawn := redraw_eq hwait
  rcases L.attempt_cases p t m with ⟨l, hl, ha⟩ | ⟨hl, hcycle, ha⟩ | ⟨hl, hcycle, ha⟩
  · rw [ha]
    refine ⟨g.clear t, by simp [attemptWith, recordFor_lock, hl], h.clear rfl⟩
  · rw [ha]
    refine ⟨((L.waitFor t p).redraw g).clear t, ?_, hwait.redraw.clear rfl⟩
    simp [attemptWith, recordFor_lock, hl, hdrawn, hcycle]
  · rw [ha]
    refine ⟨(L.waitFor t p).redraw g, ?_, hwait.redraw.congr rfl⟩
    simp [attemptWith, recordFor_lock, hl, hdrawn, hcycle, putToSleep]

/-! ## Holders by record, and emptying a table -/

/-- Whoever holds a page is a holder in its record. -/
theorem isSome_modeOf_iff {L : LockTable} {p : PageId} {t : TxnId} :
    (L.modeOf p t).isSome ↔ ∃ r, L.records[p]? = some r ∧ t ∈ r.lock.holders := by
  cases hr : L.records[p]? with
  | none => simp [modeOf, lock_of_none hr]
  | some r => simp [modeOf, lock_of_record hr, Lock.mem_holders]

theorem waiting_eq_empty {L : LockTable} (h : ∀ t : TxnId, L.waiting[t]? = none) : L.waiting = ∅ :=
  ExtTreeMap.ext_getElem? fun t => by simp [h t]

/-- A consistent table in which nobody holds a page has no records and no held sets. -/
theorem Consistent.eq_empty {L : LockTable} (h : L.Consistent) (hfree : ∀ p t, L.modeOf p t = none) :
    L.records = ∅ ∧ L.held = ∅ := by
  constructor
  · refine ExtTreeMap.ext_getElem? fun p => ?_
    cases hr : L.records[p]? with
    | none => simp
    | some r =>
      obtain ⟨t, ht⟩ := exists_holder h.recorded hr
      rw [mem_holders, hfree p t] at ht
      cases ht
  · refine ExtTreeMap.ext_getElem? fun t => ?_
    cases hs : L.held[t]? with
    | none => simp
    | some s =>
      refine absurd (ExtTreeSet.ext_mem fun p => ?_) (h.listed t s hs)
      have hheld := h.heldBy t p
      rw [heldSet, hs, hfree p t] at hheld
      simpa using hheld

theorem Attended.sleepers_eq_empty {L : LockTable} (h : L.Attended) (hr : L.records = ∅) :
    L.sleepers = ∅ := by
  refine ExtTreeMap.ext_getElem? fun k => ?_
  cases hs : L.sleepers[k]? with
  | none => simp
  | some s =>
    obtain ⟨r, hr', -⟩ := h k s hs
    simp [hr] at hr'

/-- Everybody in the list releases all pages, one after another. -/
def releaseEach (L : LockTable) (ts : List TxnId) : LockTable :=
  ts.foldl (fun L t => (L.releaseAll t).1) L

theorem releaseEach_spec (ts : List TxnId) :
    ∀ {L : LockTable}, L.Consistent → L.Attended →
      (L.releaseEach ts).Consistent ∧ (L.releaseEach ts).Attended ∧
      (∀ p u, (L.releaseEach ts).modeOf p u = if u ∈ ts then none else L.modeOf p u) ∧
      ∀ u : TxnId, L.waiting[u]? = none → (L.releaseEach ts).waiting[u]? = none := by
  induction ts with
  | nil =>
    intro L hc ha
    exact ⟨hc, ha, fun p u => by simp [releaseEach], fun u hu => hu⟩
  | cons t ts ih =>
    intro L hc ha
    obtain ⟨hc', ha', hmode, hwait⟩ := ih (hc.releaseAll t) (ha.releaseAll t)
    refine ⟨hc', ha', ?_, ?_⟩
    · intro p u
      have hunf : L.releaseEach (t :: ts) = (L.releaseAll t).1.releaseEach ts := rfl
      rw [hunf, hmode, (releaseAll_spec hc t).2]
      by_cases hu : u = t
      · simp [hu]
      · simp [hu]
    · intro u hu
      refine hwait u ?_
      rw [waiting_releaseAll, ExtTreeMap.getElem?_erase]
      split
      · rfl
      · exact hu

end LockTable

/-! ## Every reachable state -/

namespace Callers

/-- `Callers.ask` at a manager that keeps the graph `g`. -/
def askWith (w : Callers) (g : WaitGraph) (t : TxnId) (p : PageId) (m : Mode) : Callers × WaitGraph :=
  match w.table.attemptWith g p t m with
  | (L, g', .sleeps k) => (⟨L, Function.update w.blocked t (some ⟨k, p, m⟩)⟩, g')
  | (L, g', _) => (⟨L, Function.update w.blocked t none⟩, g')

theorem askWith_eq {w : Callers} {g : WaitGraph} (h : w.table.Covers g) (t : TxnId) (p : PageId)
    (m : Mode) :
    (w.askWith g t p m).1 = w.ask t p m ∧
      (w.ask t p m).table.Covers (w.askWith g t p m).2 := by
  obtain ⟨g', heq, hcov⟩ := LockTable.attemptWith_eq h p t m
  unfold askWith ask
  rw [heq]
  revert hcov
  rcases w.table.attempt p t m with ⟨L, a⟩
  cases a with
  | granted => exact fun hcov => ⟨rfl, hcov⟩
  | sleeps k => exact fun hcov => ⟨rfl, hcov⟩
  | deadlock => exact fun hcov => ⟨rfl, hcov⟩

/-- The states that a run from a new manager comes to, and the graph that it has kept by then. Looking
at the edges redraws the graph too. -/
inductive ReachableWith : Callers → WaitGraph → Prop
  | start : ReachableWith start {}
  | acquire {w : Callers} {g : WaitGraph} {t : TxnId} (p : PageId) (m : Mode) :
      ReachableWith w g → w.blocked t = none →
      ReachableWith (w.askWith g t p m).1 (w.askWith g t p m).2
  | retry {w : Callers} {g : WaitGraph} {t : TxnId} {c : BlockedCall} :
      ReachableWith w g → w.blocked t = some c → w.table.sleeps c.ticket = false →
      ReachableWith (w.askWith g t c.page c.mode).1 (w.askWith g t c.page c.mode).2
  | release {w : Callers} {g : WaitGraph} {t : TxnId} (p : PageId) :
      ReachableWith w g → w.blocked t = none →
      ReachableWith { w with table := (w.table.release p t).1 } g
  | releaseAll {w : Callers} {g : WaitGraph} {t : TxnId} :
      ReachableWith w g → w.blocked t = none →
      ReachableWith { w with table := (w.table.releaseAll t).1 } (g.clear t)
  | edges {w : Callers} {g : WaitGraph} : ReachableWith w g → ReachableWith w (w.table.redraw g)

/-- **Keeping the graph changes no run**, and what is kept are edges of blocked transactions. -/
theorem ReachableWith.reachable {w : Callers} {g : WaitGraph} (h : ReachableWith w g) :
    Reachable w ∧ w.table.Covers g := by
  induction h with
  | start => exact ⟨.start, fun t _ => by simp⟩
  | acquire p m _ hidle ih =>
    obtain ⟨heq, hcov⟩ := askWith_eq ih.2 _ p m
    rw [heq]
    exact ⟨.step ih.1 (.acquire p m hidle), hcov⟩
  | retry _ hc hwoken ih =>
    obtain ⟨heq, hcov⟩ := askWith_eq ih.2 _ _ _
    rw [heq]
    exact ⟨.step ih.1 (.retry hc hwoken), hcov⟩
  | @release w g t p _ hidle ih =>
    exact ⟨.step ih.1 (.release p hidle), ih.2.congr (LockTable.waiting_release _ p t)⟩
  | @releaseAll w g t _ hidle ih =>
    exact ⟨.step ih.1 (.releaseAll hidle), ih.2.clear (LockTable.waiting_releaseAll _ t)⟩
  | edges _ ih => exact ⟨ih.1, ih.2.redraw⟩

/-- The edges of the table are those from a blocked transaction to a holder of its page. -/
theorem Inv.mem_waitEdges {w : Callers} (h : w.Inv) {a b : TxnId} :
    (a, b) ∈ w.table.waitEdges ↔ ∃ c, w.blocked a = some c ∧ b ∈ w.table.holders c.page := by
  rw [LockTable.waitEdges, WaitGraph.mem_edges, LockTable.edge_waitGraph]
  constructor
  · rintro ⟨p, hp, hb⟩
    rw [h.waiting] at hp
    obtain ⟨c, hc, rfl⟩ := Option.map_eq_some_iff.1 hp
    exact ⟨c, hc, hb⟩
  · rintro ⟨c, hc, hb⟩
    exact ⟨c.page, by rw [h.waiting, hc]; rfl, hb⟩

/-- Once nobody is blocked, and everybody who holds a page releases all of them, the table is empty. -/
theorem Inv.releaseEach {w : Callers} (h : w.Inv) (hidle : ∀ t, w.blocked t = none) {ts : List TxnId}
    (hts : ∀ t p, t ∈ w.table.holders p → t ∈ ts) :
    (w.table.releaseEach ts).records = ∅ ∧ (w.table.releaseEach ts).held = ∅ ∧
    (w.table.releaseEach ts).waiting = ∅ ∧ (w.table.releaseEach ts).sleepers = ∅ := by
  obtain ⟨hcons, hatt, hmode, hwait⟩ := LockTable.releaseEach_spec ts h.consistent h.attended
  have hfree : ∀ p t, (w.table.releaseEach ts).modeOf p t = none := by
    intro p t
    rw [hmode]
    split
    · rfl
    · rename_i hnot
      exact Option.not_isSome_iff_eq_none.1 fun hsome => hnot (hts t p (LockTable.mem_holders.2 hsome))
  obtain ⟨hrec, hheld⟩ := hcons.eq_empty hfree
  refine ⟨hrec, hheld, LockTable.waiting_eq_empty fun t => hwait t ?_, hatt.sleepers_eq_empty hrec⟩
  rw [h.waiting, hidle t]
  rfl

/-- **The maps of the lock table agree in every reachable state.** Held sets and records list the same
holds, no record is free and no held set is empty, an owned lock has no sharers, the waits are the
blocked calls, and the edges lead from the blocked transactions to the holders of their pages, each
listed once, in the kept graph as in the table. So a transaction can always release everything, which
leaves it in no record; and once nobody is blocked and everybody who holds a page has released, nothing
is left. -/
theorem table_consistent {w : Callers} {g : WaitGraph} (h : ReachableWith w g) :
    (∀ t p, p ∈ w.table.heldSet t ↔ ∃ r, w.table.records[p]? = some r ∧ t ∈ r.lock.holders) ∧
    (∀ (p : PageId) (r : LockRecord), w.table.records[p]? = some r →
      r.lock.isFree = false ∧ (r.lock.owner.isSome → r.lock.sharers = ∅)) ∧
    (∀ (t : TxnId) (s : ExtTreeSet PageId), w.table.held[t]? = some s → s ≠ ∅) ∧
    (∀ t, w.table.waiting[t]? = (w.blocked t).map BlockedCall.page) ∧
    (w.table.redraw g).edges = w.table.waitEdges ∧ w.table.waitEdges.Nodup ∧
    (∀ a b, (a, b) ∈ w.table.waitEdges ↔
      ∃ c, w.blocked a = some c ∧ b ∈ w.table.holders c.page) ∧
    (∀ t, (w.table.releaseAll t).2 = .ok () ∧
      ∀ (p : PageId) (r : LockRecord), (w.table.releaseAll t).1.records[p]? = some r →
        t ∉ r.lock.holders) ∧
    ((∀ t, w.blocked t = none) → g = {} ∧
      ∀ ts : List TxnId, (∀ t p, t ∈ w.table.holders p → t ∈ ts) →
        (w.table.releaseEach ts).records = ∅ ∧ (w.table.releaseEach ts).held = ∅ ∧
        (w.table.releaseEach ts).waiting = ∅ ∧ (w.table.releaseEach ts).sleepers = ∅) := by
  obtain ⟨hreach, hcov⟩ := h.reachable
  have hinv := hreach.inv
  have hcons := hinv.consistent
  refine ⟨fun t p => ?_, fun p r hr => ⟨(hcons.recorded p r hr).2, fun ho => ?_⟩, hcons.listed,
    hinv.waiting, ?_, WaitGraph.edges_nodup _, fun a b => hinv.mem_waitEdges, fun t => ⟨?_, ?_⟩,
    fun hidle => ⟨?_, fun ts hts => hinv.releaseEach hidle hts⟩⟩
  · rw [hcons.heldBy, LockTable.isSome_modeOf_iff]
  · exact (hcons.recorded p r hr).1.resolve_left (Option.isSome_iff_ne_none.1 ho)
  · rw [LockTable.redraw_eq hcov, LockTable.waitEdges]
  · exact (LockTable.releaseAll_spec hcons t).1
  · intro p r hr ht
    have hmode := (LockTable.releaseAll_spec hcons t).2 p t
    rw [if_pos rfl] at hmode
    have hsome := LockTable.isSome_modeOf_iff.2 ⟨r, hr, ht⟩
    rw [hmode] at hsome
    cases hsome
  · refine WaitGraph.ext fun t => ?_
    rw [hcov t (by rw [hinv.waiting, hidle t]; rfl)]
    simp

/-- A reader that waits for the owner of a page, and the graph kept by then. -/
def waitingReader : Callers × WaitGraph :=
  let owned := start.askWith {} ⟨1⟩ ⟨⟨1⟩, 0⟩ .exclusive
  owned.1.askWith owned.2 ⟨2⟩ ⟨⟨1⟩, 0⟩ .shared

theorem table_consistent_waitingReader :
    ReachableWith waitingReader.1 waitingReader.2 ∧
    (⟨2⟩, ⟨1⟩) ∈ waitingReader.1.table.waitEdges ∧
    (waitingReader.1.table.redraw waitingReader.2).edges = waitingReader.1.table.waitEdges ∧
    (waitingReader.1.table.releaseAll ⟨1⟩).2 = .ok () := by
  have hreach : ReachableWith waitingReader.1 waitingReader.2 :=
    .acquire _ _ (.acquire _ _ .start rfl) (by cbv)
  obtain ⟨-, -, -, -, hkept, -, hedges, hrelease, -⟩ := table_consistent hreach
  have hheld : waitingReader.1.table.holders ⟨⟨1⟩, 0⟩ = [⟨1⟩] := by cbv
  exact ⟨hreach, (hedges _ _).2 ⟨⟨0, ⟨⟨1⟩, 0⟩, .shared⟩, by cbv, by simp [hheld]⟩, hkept,
    (hrelease _).1⟩

end Callers

end PageEngine
