import PageEngine.Proofs.World.Sections

/-!
# `Proofs/World/Runs.lean` — the invariant along every run

A new pool satisfies the invariant, every action keeps it, and so:

> **every world that a run comes to satisfies the invariant**,

whatever the order of the sections, for any capacity and any draws, and its history is honest.
-/

set_option autoImplicit false

namespace PageEngine

open Std

namespace World

variable {origin : PageId → PageData} {w : World} {t : TxnId} {k : Task}

/-! ## Beginning -/

theorem inv_start {capacity : Nat} {draws : Draws} {d : Tables} {P : Pool Tables}
    (hP : Pool.create capacity draws d = .ok P) (hd : d.Sound) : Inv d.contents (start P) := by
  obtain ⟨-, rfl⟩ := Pool.create_ok hP
  refine ⟨⟨hd, LockTable.consistent_empty, fun _ => rfl, ?_, ?_⟩,
    ?_⟩
  · intro p f hf
    simp [start] at hf
  · intro s p x hx
    cases hx
  · intro s k hk
    cases hk

/-! ## One action -/

/-- The pool as a transaction with a call in flight finds it. -/
theorem Inv.pool_of_task (hw : w.Inv origin) (hk : w.tasks t = some k) :
    PoolInv origin (fun f => w.ChangedByOther t f ∨ k.call.activity.Changes f) w.pool w.history := by
  refine (hw.pool.keeps_refl (t := t) ?_).pool
  intro f hf
  obtain ⟨u, k', hk', hc⟩ := hf
  by_cases hu : u = t
  · subst hu
    rw [hk, Option.some.injEq] at hk'
    exact .inr (hk' ▸ hc)
  · exact .inl ⟨u, hu, k', hk', hc⟩

/-- The pool as a transaction finds it that is not about to install a frame. -/
theorem Inv.pool_of_quiet (hw : w.Inv origin)
    (hquiet : ∀ k, w.tasks t = some k → ∀ f, ¬k.call.activity.Changes f) :
    PoolInv origin (w.ChangedByOther t) w.pool w.history := by
  refine (hw.pool.keeps_refl (t := t) ?_).pool
  intro f hf
  obtain ⟨u, k, hk, hc⟩ := hf
  refine ⟨u, ?_, k, hk, hc⟩
  intro hu
  subst hu
  exact hquiet k hk f hc

theorem Inv.pool_of_idle (hw : w.Inv origin) (hidle : w.tasks t = none) :
    PoolInv origin (w.ChangedByOther t) w.pool w.history := by
  refine hw.pool_of_quiet fun k hk => ?_
  rw [hidle] at hk
  cases hk

/-- The pool as a call finds it that is not about to install a frame. -/
theorem Inv.pool_of_call (hw : w.Inv origin) (hk : w.tasks t = some k)
    (ha : ∀ f fs, k.call.activity ≠ .installing (f :: fs)) :
    PoolInv origin (w.ChangedByOther t) w.pool w.history := by
  refine hw.pool_of_quiet fun k' hk' f hf => ?_
  obtain ⟨fs, hfs⟩ := hf
  obtain rfl := Option.some.inj (hk.symm.trans hk')
  exact ha f fs hfs

theorem Inv.begin (hw : w.Inv origin) (hidle : w.tasks t = none) {k : Task}
    (hk : TaskInv w.pool w.history t k) :
    (w.setTask t (some k)).Inv origin := by
  have hpool := hw.pool_of_idle hidle
  refine hw.serve ⟨hpool.keeps_refl fun f hf => .inl hf, ?_⟩
  intro k' hk'
  rw [← Option.some.inj hk']
  exact hk

theorem installs_ofRequest {r : Request} (hr : (Action.request t r).ThroughPool) :
    (Call.ofRequest t r).installs = true ∧ (Call.ofRequest t r).txn = t ∧
      (Call.ofRequest t r).activity = .start r := by
  cases r with
  | insertInto s tuple => exact hr.elim
  | deleteFrom s tuple => exact hr.elim
  | lock p m => exact ⟨rfl, rfl, rfl⟩
  | get p a => exact ⟨rfl, rfl, rfl⟩
  | scan x => exact ⟨rfl, rfl, rfl⟩
  | insert table tuple => exact ⟨rfl, rfl, rfl⟩
  | delete tuple => exact ⟨rfl, rfl, rfl⟩
  | complete commit => exact ⟨rfl, rfl, rfl⟩

theorem Inv.request (hw : w.Inv origin) (hidle : w.tasks t = none) {r : Request}
    (hr : (Action.request t r).ThroughPool) : (w.act (.request t r)).Inv origin := by
  obtain ⟨hinst, htxn, hact⟩ := installs_ofRequest hr
  refine hw.begin hidle ⟨htxn, hinst, ?_⟩
  show ActivityInv w.pool w.history t false none (Call.ofRequest t r).activity
  rw [hact]
  exact ⟨hr, fun he => by cases he⟩

theorem Inv.edit (hw : w.Inv origin) (hidle : w.tasks t = none) (p : PageId) (rule : Rule) :
    (w.act (.edit t p rule)).Inv origin :=
  hw.begin hidle ⟨rfl, rfl, ⟨trivial, fun _ => ⟨p, rfl⟩⟩⟩

/-- What an advance does: nothing without a call, the client overwrites the page that it fetches, or the
call runs its next section. -/
theorem advance_cases (w : World) (t : TxnId) :
    (w.tasks t = none ∧ w.advance t = w) ∨
    (∃ k rule p use, w.tasks t = some k ∧ k.rule = some rule ∧ k.call.activity = .fetching p use ∧
      w.advance t = w.editPage t p rule) ∨
    (∃ k, w.tasks t = some k ∧ (∀ p use, k.call.activity = .fetching p use → k.rule = none) ∧
      w.advance t = w.runSection t k) := by
  unfold advance
  cases hk : w.tasks t with
  | none => exact .inl ⟨rfl, rfl⟩
  | some k =>
    dsimp only
    split
    · rename_i rule p use hrule ha
      exact .inr (.inl ⟨k, rule, p, use, rfl, hrule, ha, rfl⟩)
    · rename_i hno
      refine .inr (.inr ⟨k, rfl, ?_, rfl⟩)
      intro p use ha
      cases hrule : k.rule with
      | none => rfl
      | some rule => exact (hno rule p use hrule ha).elim

theorem advance_of_plain (hk : w.tasks t = some k) (hrule : k.rule = none) :
    w.advance t = w.runSection t k := by
  simp only [advance, hk, hrule]

/-- A client that overwrites a page fails to get it, or gets what its transaction should see and changes
it. -/
theorem Inv.serves_editPage (hw : w.Inv origin) (hk : w.tasks t = some k) {rule : Rule} {p : PageId}
    {use : Use} (hrule : k.rule = some rule) (ha : k.call.activity = .fetching p use) :
    ∃ P h, w.editPage t p rule = { pool := P, tasks := Function.update w.tasks t none, history := h } ∧
      Serves origin t (w.ChangedByOther t) w.pool w.history P h none ∧
      (h = w.history ∨
        h = .edited t p rule (rule (History.reads t w.history ++ [History.view origin t p w.history])) ::
          .got t p (History.view origin t p w.history) :: w.history) := by
  have hinv := (hw.tasks t k hk).activity
  rw [ha, hrule] at hinv
  obtain ⟨-, -, hX⟩ := hinv
  have hpool := hw.pool_of_call hk (by simp [ha])
  have hview : shown w.pool w.history t p = History.view origin t p w.history := by
    rw [shown, hpool.stored, History.view]
  rcases hpool.serves_edit (hw.unclaimed t) (hX (.inr rfl)) with
    ⟨P, e, hfetch, hserves⟩ | ⟨P, f, hfetch, hdata, hserves⟩
  · refine ⟨P, w.history, ?_, hserves, .inl rfl⟩
    simp only [editPage, hfetch, setTask]
  · refine ⟨_, _, ?_, hserves rule (rule (History.reads t w.history ++ [(P.page f).data])), .inr ?_⟩
    · simp only [editPage, hfetch]
    · rw [hdata, hview]

theorem Inv.editPage_cases (hw : w.Inv origin) (hk : w.tasks t = some k) {rule : Rule} {p : PageId}
    {use : Use} (hrule : k.rule = some rule) (ha : k.call.activity = .fetching p use) :
    (w.editPage t p rule).Inv origin ∧
    ((w.editPage t p rule).history = w.history ∨
      (w.editPage t p rule).history =
        .edited t p rule (rule (History.reads t w.history ++ [History.view origin t p w.history])) ::
          .got t p (History.view origin t p w.history) :: w.history) := by
  obtain ⟨P, h, heq, hserves, hist⟩ := hw.serves_editPage hk hrule ha
  rw [heq]
  exact ⟨hw.serve hserves, hist⟩

/-- **Every section serves its transaction.** -/
theorem Inv.serves_advance (hw : w.Inv origin) (t : TxnId) :
    w.advance t = w ∨ ∃ P h k,
      w.advance t = { pool := P, tasks := Function.update w.tasks t k, history := h } ∧
      Serves origin t (w.ChangedByOther t) w.pool w.history P h k := by
  rcases w.advance_cases t with ⟨-, heq⟩ | ⟨k, rule, p, use, hk, hrule, ha, heq⟩ | ⟨k, hk, hrule, heq⟩
  · exact .inl heq
  · obtain ⟨P, h, hedit, hserves, -⟩ := hw.serves_editPage hk hrule ha
    exact .inr ⟨P, h, none, heq.trans hedit, hserves⟩
  · exact .inr ⟨_, _, _, heq,
      servesNext (hw.pool_of_task hk) (hw.tasks t k hk) (hw.unclaimed t) hrule⟩

/-- **Every section keeps the invariant.** -/
theorem Inv.advance (hw : w.Inv origin) (t : TxnId) : (w.act (.advance t)).Inv origin := by
  show (w.advance t).Inv origin
  rcases hw.serves_advance t with heq | ⟨P, h, k, heq, hserves⟩
  · rw [heq]
    exact hw
  · rw [heq]
    exact hw.serve hserves

theorem Inv.register (hw : w.Inv origin) {file : HeapFile} (hf : w.pool.storage.Fresh file) :
    (w.act (.register file)).Inv origin := by
  have hg := Tables.grown_register hw.pool.sound hf
  exact ⟨hw.pool.of_grown hg (fun _ _ => rfl) (hw.pool.contents_register file),
    fun t k hk => (hw.tasks t k hk).rely (.of_grown hg fun _ => rfl)⟩

/-- **Every action keeps the invariant.** -/
theorem Inv.act (hw : w.Inv origin) {a : Action} (ha : a.Enabled w) (hkind : a.ThroughPool) :
    (w.act a).Inv origin := by
  cases a with
  | request t r => exact hw.request ha hkind
  | edit t p rule => exact hw.edit ha p rule
  | advance t => exact hw.advance t
  | register file => exact hw.register ha

/-! ## Histories -/

/-- **A page that was fetched for a transaction shows what the transaction should see**, for as long as
the call works on it. -/
theorem Inv.data_of_working (hw : w.Inv origin) (hk : w.tasks t = some k) {p : PageId} {f : FrameId}
    {use : Use} (ha : k.call.activity = .working p f use) :
    (w.pool.page f).data = History.view origin t p w.history := by
  have hact := (hw.tasks t k hk).activity
  rw [ha] at hact
  rw [hact.2.2.1.data_eq, shown, hw.pool.stored]
  rfl

theorem Inv.honest_events (hw : w.Inv origin) (hk : w.tasks t = some k) {P : Pool Tables} {c : Call}
    (hh : History.Honest origin w.history) :
    History.Honest origin (k.events w.pool P c ++ w.history) := by
  unfold Task.events
  split
  · exact hh
  · rename_i p f use ha
    refine ⟨?_, hh⟩
    rw [hw.data_of_working hk ha, (hw.tasks t k hk).txn]
    rfl
  · split
    · exact hh
    · exact hh
  · split
    · exact hh
    · exact hh
  · exact hh

theorem Inv.honest_act (hw : w.Inv origin) (hh : History.Honest origin w.history) (a : Action) :
    History.Honest origin (w.act a).history := by
  cases a with
  | request t r => exact hh
  | edit t p rule => exact hh
  | register file => exact hh
  | advance t =>
    show History.Honest origin (w.advance t).history
    rcases w.advance_cases t with ⟨-, heq⟩ | ⟨k, rule, p, use, hk, hrule, ha, heq⟩ | ⟨k, hk, -, heq⟩
    · rw [heq]
      exact hh
    · rw [heq]
      rcases (hw.editPage_cases hk hrule ha).2 with hist | hist
      · rw [hist]
        exact hh
      · rw [hist]
        exact ⟨rfl, hh⟩
    · rw [heq]
      exact hw.honest_events hk hh

/-- **Every world that a run comes to satisfies the invariant, and its history is honest.** -/
theorem Reachable.inv {kind : Action → Prop} (hkind : ∀ a, kind a → a.ThroughPool) {capacity : Nat}
    {draws : Draws} {d : Tables} {P : Pool Tables} (hP : Pool.create capacity draws d = .ok P)
    (hd : d.Sound) (hw : Reachable kind P w) :
    w.Inv d.contents ∧ History.Honest d.contents w.history := by
  induction hw with
  | start => exact ⟨inv_start hP hd, trivial⟩
  | @step w a _ hen ha ih => exact ⟨ih.1.act hen (hkind a ha), ih.1.honest_act ih.2 a⟩

end World

end PageEngine
