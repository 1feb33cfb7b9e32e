import PageEngine.Proofs.World.Alone
import PageEngine.Proofs.World.Serial

/-!
# `Proofs/World/Serializability.lean` — runs of transactions of whole pages

Transactions that only read and overwrite whole pages keep every lock until they end. So what a
transaction has touched it holds (`World.Strict`), and nobody else can have changed it and committed:

> **the history of such a run is orderly**, and therefore the run is as good as its committed
> transactions alone, one after another in the order of their commits.
-/

set_option autoImplicit false

namespace PageEngine

open Std

/-! ## Calls that keep their locks -/

/-- What a call does that gets one page or ends its transaction. -/
inductive Activity.PageWise : Activity → Prop
  | get (p : PageId) (a : Access) : PageWise (.start (.get p a))
  | complete (commit : Bool) : PageWise (.start (.complete commit))
  | locking (p : PageId) (m : Mode) : PageWise (.locking p m .deliver)
  | sleeping (ticket : Nat) (p : PageId) (m : Mode) : PageWise (.sleeping ticket p m .deliver)
  | fetching (p : PageId) : PageWise (.fetching p .deliver)
  | working (p : PageId) (f : FrameId) : PageWise (.working p f .deliver)
  | releasing (commit : Bool) (r : Except Error Unit) : PageWise (.releasing commit r)
  | ending (commit : Bool) (r : Except Error Unit) : PageWise (.ending commit r)
  | finished (r : Except Error Answer) : PageWise (.finished r)

section Step

variable {origin : PageId → PageData} {ch : FrameId → Prop} {P : Pool Tables} {h : History}
  {t : TxnId} {k : Task}

theorem attemptLock_pageWise (c : Call) (P : Pool Tables) (p : PageId) (m : Mode) :
    (c.attemptLock P p m .deliver).2.activity.PageWise ∧
    (∀ commit r, (c.attemptLock P p m .deliver).2.activity ≠ .releasing commit r) ∧
    (c.attemptLock P p m .deliver).1.locks = (P.locks.attempt p c.txn m).1 := by
  unfold Call.attemptLock
  split
  · rename_i L hL
    exact ⟨.fetching p, fun _ _ => by simp [Call.goOn], by rw [hL]; rfl⟩
  · rename_i L ticket hL
    exact ⟨.sleeping ticket p m, fun _ _ => by simp [Call.goOn], by rw [hL]; rfl⟩
  · rename_i L hL
    exact ⟨.finished _, fun _ _ => by simp [Call.fail, Call.finish, Call.goOn], by rw [hL]; rfl⟩

/-- What a section of a call does to the locks: nothing, or it asks for one, or it gives all back. -/
inductive LockStep (P : Pool Tables) (k : Task) (P' : Pool Tables) : Prop
  | same : P'.locks = P.locks → LockStep P k P'
  | asks (p : PageId) (m : Mode) : P'.locks = (P.locks.attempt p k.call.txn m).1 → LockStep P k P'
  | givesBack (commit : Bool) (r : Except Error Unit) : k.call.activity = .releasing commit r →
      P'.locks = (P.locks.releaseAll k.call.txn).1 → LockStep P k P'

/-- **Only the end of a transaction gives locks back**: any other section of such a call leaves the
locks alone or asks for one. -/
theorem lockStep_of_pageWise (hi : PoolInv origin ch P h) (hpw : k.call.activity.PageWise) :
    LockStep P k (k.call.step P).1 := by
  generalize ha : k.call.activity = a at hpw
  cases hpw with
  | get p a =>
    simp only [Call.step, ha, Call.start]
    exact .same rfl
  | complete commit =>
    simp only [Call.step, ha, Call.start]
    cases commit with
    | false => exact .same (P.restoreHeld_spec hi.filed _).2.locks
    | true =>
      exact .same (Pool.flushHeld_spec hi.sound hi.filed
        (fun q g hg => (hi.cached q g hg).image.hasPage) _).1.locks
  | locking p m =>
    simp only [Call.step, ha]
    exact .asks p m (attemptLock_pageWise k.call P p m).2.2
  | sleeping ticket p m =>
    simp only [Call.step, ha]
    split
    · exact .same rfl
    · exact .asks p m (attemptLock_pageWise k.call P p m).2.2
  | fetching p =>
    rcases P.fetch_cases p with ⟨R, f, hR, -, -, hfetch⟩ | ⟨R, e, hR, hfetch⟩ |
        ⟨R, hR, -, -, hfetch⟩
    · simp only [Call.step, ha, hfetch]
      exact .same hR.locks
    · simp only [Call.step, ha, hfetch]
      exact .same hR.locks
    · simp only [Call.step, ha, hfetch]
      exact .same hR.locks
  | working p f =>
    simp only [Call.step, ha, Call.useFrame]
    exact .same rfl
  | releasing commit r =>
    simp only [Call.step, ha]
    exact .givesBack commit r ha rfl
  | ending commit r =>
    simp only [Call.step, ha]
    exact .same rfl
  | finished r =>
    simp only [Call.step, ha]
    exact .same rfl

/-- Such a call stays one, and only a commit or an abort leads to giving back the locks. -/
theorem step_pageWise (P : Pool Tables) (hpw : k.call.activity.PageWise) :
    (k.call.step P).2.activity.PageWise ∧
    ∀ commit r, (k.call.step P).2.activity = .releasing commit r →
      ∃ c, k.call.activity = .start (.complete c) := by
  generalize ha : k.call.activity = a at hpw
  cases hpw with
  | get p a =>
    simp only [Call.step, ha, Call.start]
    exact ⟨.locking p a.mode, fun _ _ hr => by simp [Call.goOn] at hr⟩
  | complete commit =>
    simp only [Call.step, ha, Call.start]
    exact ⟨.releasing commit _, fun _ _ _ => ⟨commit, rfl⟩⟩
  | locking p m =>
    obtain ⟨hnext, hno, -⟩ := attemptLock_pageWise k.call P p m
    simp only [Call.step, ha]
    exact ⟨hnext, fun c r hr => absurd hr (hno c r)⟩
  | sleeping ticket p m =>
    obtain ⟨hnext, hno, -⟩ := attemptLock_pageWise k.call P p m
    simp only [Call.step, ha]
    split
    · rw [ha]
      exact ⟨.sleeping ticket p m, fun _ _ hr => by cases hr⟩
    · exact ⟨hnext, fun c r hr => absurd hr (hno c r)⟩
  | fetching p =>
    simp only [Call.step, ha]
    split
    · exact ⟨.finished _, fun _ _ hr => by simp [Call.fail, Call.finish, Call.goOn] at hr⟩
    · exact ⟨.working p _, fun _ _ hr => by simp [Call.goOn] at hr⟩
  | working p f =>
    simp only [Call.step, ha, Call.useFrame]
    exact ⟨.finished _, fun _ _ hr => by simp [Call.finish, Call.goOn] at hr⟩
  | releasing commit r =>
    simp only [Call.step, ha]
    exact ⟨.ending commit _, fun _ _ hr => by simp [Call.goOn] at hr⟩
  | ending commit r =>
    simp only [Call.step, ha]
    exact ⟨.finished _, fun _ _ hr => by simp [Call.finish, Call.goOn] at hr⟩
  | finished r =>
    simp only [Call.step, ha]
    exact ⟨.finished r, fun _ _ hr => by cases hr⟩

end Step

/-! ## What was touched is held -/

namespace History

theorem touched_ended (t u : TxnId) (commit : Bool) (h : History) :
    touched u (.ended t commit :: h) = if t = u then [] else touched u h := by
  simp only [touched, steps]
  split <;> rfl

theorem mem_touched_got {t u : TxnId} {p q : PageId} {d : PageData} {h : History}
    (hq : q ∈ touched u (.got t p d :: h)) : t = u ∧ q = p ∨ q ∈ touched u h := by
  simp only [touched, steps] at hq
  split at hq
  · rename_i ht
    rw [List.map_append, List.mem_append] at hq
    rcases hq with hq | hq
    · exact .inr hq
    · exact .inl ⟨ht, by simpa [PageStep.page] using hq⟩
  · exact .inr hq

theorem mem_touched_edited {t u : TxnId} {p q : PageId} {rule : Rule} {d : PageData} {h : History}
    (hq : q ∈ touched u (.edited t p rule d :: h)) : t = u ∧ q = p ∨ q ∈ touched u h := by
  simp only [touched, steps] at hq
  split at hq
  · rename_i ht
    rw [List.map_append, List.mem_append] at hq
    rcases hq with hq | hq
    · exact .inr hq
    · exact .inl ⟨ht, by simpa [PageStep.page] using hq⟩
  · exact .inr hq

end History

namespace World

variable {origin : PageId → PageData} {w : World} {t : TxnId} {k : Task}

/-- Whatever a transaction has touched it holds, until it has ended. -/
structure Strict (w : World) : Prop where
  held : ∀ t, ∀ p ∈ History.touched t w.history, (w.pool.locks.modeOf p t).isSome
  calls : ∀ t k, w.tasks t = some k → k.call.activity.PageWise
  ended : ∀ t k commit r, w.tasks t = some k → k.call.activity = .releasing commit r →
    History.touched t w.history = []

/-- What a transaction has touched nobody else has changed. -/
theorem Strict.unchanged (hs : w.Strict) (hw : w.Inv origin) {u : TxnId} (hu : u ≠ t) {p : PageId}
    (hp : p ∈ History.touched u w.history) : History.own t p w.history = none :=
  hw.pool.own_none_of_held (hs.held u p hp) hu.symm

/-- A section of a call touches at most a page that its transaction holds. -/
theorem Strict.held_events (hs : w.Strict) (hw : w.Inv origin) (hk : w.tasks t = some k)
    {P : Pool Tables} {c : Call} {u : TxnId} {p : PageId}
    (hp : p ∈ History.touched u (k.events w.pool P c ++ w.history)) :
    (w.pool.locks.modeOf p u).isSome := by
  have hinv := hw.tasks t k hk
  unfold Task.events at hp
  split at hp
  · rw [List.singleton_append, History.touched_ended] at hp
    split at hp
    · cases hp
    · exact hs.held u p hp
  · rename_i q f use ha
    rcases History.mem_touched_got hp with ⟨hu, rfl⟩ | hp
    · have hact := hinv.activity
      rw [ha] at hact
      rw [← hu, hinv.txn]
      exact hact.2.2.1.held
    · exact hs.held u p hp
  · split at hp
    · exact hs.held u p hp
    · exact hs.held u p hp
  · split at hp
    · exact hs.held u p hp
    · exact hs.held u p hp
  · exact hs.held u p hp

theorem touched_events_other {P P' : Pool Tables} {c : Call} {h : History} {u : TxnId}
    (hu : u ≠ k.call.txn) : History.touched u (k.events P P' c ++ h) = History.touched u h := by
  unfold Task.events
  split
  · rw [List.singleton_append, History.touched_ended, if_neg (Ne.symm hu)]
  · show (History.steps u (.got k.call.txn _ _ :: h)).map _ = _
    rw [History.steps, if_neg (Ne.symm hu)]
    rfl
  · split <;> rfl
  · split <;> rfl
  · rfl

/-- **A section of a call keeps what was touched locked.** -/
theorem Strict.runSection (hs : w.Strict) (hw : w.Inv origin) (hk : w.tasks t = some k) :
    (w.runSection t k).Strict := by
  have hpw := hs.calls t k hk
  have htxn := (hw.tasks t k hk).txn
  obtain ⟨hnext, hrel⟩ := step_pageWise w.pool hpw
  -- What the section leaves of the call of `t`.
  have hafter : ∀ k', k.after (k.call.step w.pool).1 (k.call.step w.pool).2 = some k' →
      k'.call = (k.call.step w.pool).2 := by
    intro k' hk'
    unfold Task.after at hk'
    split at hk'
    · cases hk'
    · rw [← Option.some.inj hk']
  refine ⟨?_, ?_, ?_⟩
  · intro u p hp
    have hheld := hs.held_events hw hk hp
    show ((k.call.step w.pool).1.locks.modeOf p u).isSome
    rcases lockStep_of_pageWise hw.pool hpw with hsame | ⟨q, m, hasks⟩ | ⟨b, x, ha, hback⟩
    · rw [hsame]
      exact hheld
    · rw [hasks]
      exact LockTable.held_attempt hheld
    · rw [hback, (LockTable.releaseAll_spec hw.pool.locks _).2]
      split
      · rename_i hu
        -- The transaction that gives its locks back has ended, and has touched nothing since.
        have hp' : p ∈ History.touched u (k.events w.pool (k.call.step w.pool).1
            (k.call.step w.pool).2 ++ w.history) := hp
        have hev : k.events w.pool (k.call.step w.pool).1 (k.call.step w.pool).2 = [] := by
          simp only [Task.events, ha]
        rw [hev, List.nil_append, hu, htxn, hs.ended t k b x hk ha] at hp'
        cases hp'
      · exact hheld
  · intro u k' hk'
    by_cases hu : u = t
    · subst hu
      rw [hafter k' (by simpa [World.runSection] using hk')]
      exact hnext
    · exact hs.calls u k' (by simpa [World.runSection, hu] using hk')
  · intro u k' commit r hk' ha
    show History.touched u (k.events w.pool (k.call.step w.pool).1 (k.call.step w.pool).2 ++
      w.history) = []
    by_cases hu : u = t
    · subst hu
      rw [hafter k' (by simpa [World.runSection] using hk')] at ha
      obtain ⟨c, hc⟩ := hrel commit r ha
      have hev : k.events w.pool (k.call.step w.pool).1 (k.call.step w.pool).2 = [.ended u c] := by
        simp only [Task.events, hc, htxn]
      rw [hev, List.singleton_append, History.touched_ended, if_pos rfl]
    · rw [touched_events_other (by rw [htxn]; exact hu)]
      exact hs.ended u k' commit r (by simpa [World.runSection, hu] using hk') ha

theorem editPage_locks (w : World) (t : TxnId) (p : PageId) (rule : Rule) :
    (w.editPage t p rule).pool.locks = w.pool.locks ∧
      (w.editPage t p rule).tasks = Function.update w.tasks t none := by
  rcases w.pool.fetch_cases p with ⟨R, f, hR, -, -, hfetch⟩ | ⟨R, e, hR, hfetch⟩ |
      ⟨R, hR, -, -, hfetch⟩
  · simp only [editPage, hfetch]
    exact ⟨hR.locks, trivial⟩
  · simp only [editPage, hfetch]
    exact ⟨hR.locks, rfl⟩
  · simp only [editPage, hfetch]
    exact ⟨hR.locks, trivial⟩

/-- **A client that overwrites a page holds it.** -/
theorem Strict.editPage (hs : w.Strict) (hw : w.Inv origin) (hk : w.tasks t = some k) {rule : Rule}
    {p : PageId} {use : Use} (hrule : k.rule = some rule) (ha : k.call.activity = .fetching p use) :
    (w.editPage t p rule).Strict := by
  obtain ⟨hlocks, htasks⟩ := editPage_locks w t p rule
  have hact := (hw.tasks t k hk).activity
  rw [ha] at hact
  have hheld := hact.2.1
  have htouched : ∀ u q, q ∈ History.touched u (w.editPage t p rule).history →
      t = u ∧ q = p ∨ q ∈ History.touched u w.history := by
    intro u q hq
    rcases (hw.editPage_cases hk hrule ha).2 with hist | hist
    · rw [hist] at hq
      exact .inr hq
    · rw [hist] at hq
      rcases History.mem_touched_edited hq with hp | hq
      · exact .inl hp
      · exact History.mem_touched_got hq
  refine ⟨?_, ?_, ?_⟩
  · intro u q hq
    rw [hlocks]
    rcases htouched u q hq with ⟨rfl, rfl⟩ | hq
    · exact hheld
    · exact hs.held u q hq
  · intro u k' hk'
    rw [htasks] at hk'
    by_cases hu : u = t
    · simp [hu] at hk'
    · exact hs.calls u k' (by simpa [hu] using hk')
  · intro u k' commit r hk' har
    rw [htasks] at hk'
    by_cases hu : u = t
    · simp [hu] at hk'
    · have hold := hs.ended u k' commit r (by simpa [hu] using hk') har
      apply List.eq_nil_iff_forall_not_mem.2
      intro q hq
      rcases htouched u q hq with ⟨htu, -⟩ | hq
      · exact hu htu.symm
      · rw [hold] at hq
        cases hq

theorem Strict.begin (hs : w.Strict) {k : Task} (hpw : k.call.activity.PageWise)
    (hrel : ∀ commit r, k.call.activity ≠ .releasing commit r) :
    (w.setTask t (some k)).Strict := by
  refine ⟨hs.held, ?_, ?_⟩
  · intro u k' hk'
    by_cases hu : u = t
    · obtain rfl : k = k' := by simpa [setTask, hu] using hk'
      exact hpw
    · exact hs.calls u k' (by simpa [setTask, hu] using hk')
  · intro u k' commit r hk' ha
    by_cases hu : u = t
    · obtain rfl : k = k' := by simpa [setTask, hu] using hk'
      exact absurd ha (hrel commit r)
    · exact hs.ended u k' commit r (by simpa [setTask, hu] using hk') ha

/-! ## Runs -/

/-- **Whatever the order of the sections, what was touched is held.** -/
theorem Strict.act (hs : w.Strict) (hw : w.Inv origin) {a : Action} (ha : a.PageWise) :
    (w.act a).Strict := by
  cases a with
  | request t r =>
    cases r with
    | get p m => exact hs.begin (.get p m) fun _ _ hr => by cases hr
    | complete commit => exact hs.begin (.complete commit) fun _ _ hr => by cases hr
    | lock p m => exact ha.elim
    | scan x => exact ha.elim
    | insert table tuple => exact ha.elim
    | delete tuple => exact ha.elim
    | insertInto s tuple => exact ha.elim
    | deleteFrom s tuple => exact ha.elim
  | edit t p rule => exact hs.begin (.get p .write) fun _ _ hr => by cases hr
  | register file => exact ha.elim
  | advance t =>
    show (w.advance t).Strict
    rcases w.advance_cases t with ⟨-, heq⟩ | ⟨k, rule, p, use, hk, hrule, hact, heq⟩ | ⟨k, hk, -, heq⟩
    · rw [heq]
      exact hs
    · rw [heq]
      exact hs.editPage hw hk hrule hact
    · rw [heq]
      exact hs.runSection hw hk

theorem Strict.orderly_events (hs : w.Strict) (hw : w.Inv origin) (hk : w.tasks t = some k)
    {P : Pool Tables} {c : Call} (ho : History.Orderly origin w.history) :
    History.Orderly origin (k.events w.pool P c ++ w.history) := by
  have htxn := (hw.tasks t k hk).txn
  have hpw := hs.calls t k hk
  unfold Task.events
  split
  · refine ⟨?_, ho⟩
    intro u hu p hp
    rw [htxn] at hu ⊢
    exact hs.unchanged hw hu hp
  · rename_i p f use ha
    refine ⟨?_, ho⟩
    rw [hw.data_of_working hk ha, htxn]
    rfl
  · rename_i i ha
    rw [ha] at hpw
    cases hpw
  · rename_i f fs ha
    rw [ha] at hpw
    cases hpw
  · exact ho

theorem Strict.orderly_act (hs : w.Strict) (hw : w.Inv origin)
    (ho : History.Orderly origin w.history) {a : Action} (ha : a.PageWise) :
    History.Orderly origin (w.act a).history := by
  cases a with
  | request t r => exact ho
  | edit t p rule => exact ho
  | register file => exact ha.elim
  | advance t =>
    show History.Orderly origin (w.advance t).history
    rcases w.advance_cases t with ⟨-, heq⟩ | ⟨k, rule, p, use, hk, hrule, hact, heq⟩ | ⟨k, hk, -, heq⟩
    · rw [heq]
      exact ho
    · rw [heq]
      rcases (hw.editPage_cases hk hrule hact).2 with hist | hist
      · rw [hist]
        exact ho
      · rw [hist]
        refine ⟨?_, rfl, ho⟩
        rw [History.reads, if_pos rfl]
    · rw [heq]
      exact hs.orderly_events hw hk ho

/-- **The history of a run of transactions of whole pages is orderly.** -/
theorem Reachable.orderly {capacity : Nat} {draws : Draws} {d : Tables} {P : Pool Tables}
    (hP : Pool.create capacity draws d = .ok P) (hd : d.Sound)
    (hw : Reachable Action.PageWise P w) :
    w.Inv d.contents ∧ w.Strict ∧ History.Orderly d.contents w.history := by
  induction hw with
  | start =>
    refine ⟨inv_start hP hd, ⟨?_, ?_, ?_⟩, trivial⟩
    · intro t p hp
      cases hp
    · intro t k hk
      cases hk
    · intro t k _ _ hk
      cases hk
  | @step w a _ hen ha ih =>
    obtain ⟨hw, hs, ho⟩ := ih
    exact ⟨hw.act hen (ha.throughPool), hs.act hw ha, hs.orderly_act hw ho ha⟩

/-- The stores hold what the committed transactions leave when they run alone, one after another in the
order of their commits, and each of them has read what it reads then. -/
theorem Reachable.serial_eq {capacity : Nat} {draws : Draws} {d : Tables} {P : Pool Tables}
    (hP : Pool.create capacity draws d = .ok P) (hd : d.Sound)
    (hw : Reachable Action.PageWise P w) :
    PageStep.serial d.contents ((History.commits w.history).map Prod.fst) =
      (w.pool.storage.contents, (History.commits w.history).map Prod.snd) := by
  obtain ⟨hinv, -, ho⟩ := Reachable.orderly hP hd hw
  have hstored : w.pool.storage.contents = fun p => History.committed d.contents p w.history :=
    funext hinv.pool.stored
  rw [ho.serial_eq, hstored]

/-- **Serializability in commit order.** Whatever the order of the sections, what is stored and what the
committed transactions have read is what they leave and read when they run alone, one after another in
the order of their commits; and any other run over the same stores that commits them in this order, such
as one that begins a transaction only when the one before it has ended, comes to the same. -/
theorem serializable_in_commit_order {capacity : Nat} {draws : Draws} {d : Tables} {P : Pool Tables}
    (hP : Pool.create capacity draws d = .ok P) (hd : d.Sound)
    (hw : Reachable Action.PageWise P w) :
    PageStep.serial d.contents ((History.commits w.history).map Prod.fst) =
      (w.pool.storage.contents, (History.commits w.history).map Prod.snd) ∧
    ∀ capacity' draws' Q v, Pool.create capacity' draws' d = .ok Q →
      Reachable Action.PageWise Q v →
      (History.commits v.history).map Prod.fst = (History.commits w.history).map Prod.fst →
      v.pool.storage.contents = w.pool.storage.contents ∧
        (History.commits v.history).map Prod.snd = (History.commits w.history).map Prod.snd := by
  have hserial := Reachable.serial_eq hP hd hw
  refine ⟨hserial, ?_⟩
  intro capacity' draws' Q v hQ hv hsame
  have hother := Reachable.serial_eq hQ hd hv
  rw [hsame, hserial, Prod.mk.injEq] at hother
  exact ⟨hother.1.symm, hother.2.symm⟩

/-- Transaction 2 commits before transaction 1, and is the first one when they run alone. -/
theorem serializable_in_commit_order_small : ∃ w, Reachable Action.PageWise smallPool w ∧
    w.history = relayHistory ∧
    PageStep.serial smallTables.contents
      [[.read ⟨⟨1⟩, 0⟩, .write ⟨⟨1⟩, 0⟩ countUp], [.read ⟨⟨1⟩, 0⟩, .write ⟨⟨1⟩, 0⟩ countUp]] =
      (w.pool.storage.contents, [[smallTables.contents ⟨⟨1⟩, 0⟩], [counted]]) ∧
    w.pool.storage.contents ⟨⟨1⟩, 0⟩ = countUp [counted] := by
  obtain ⟨w, hw, -, hist⟩ := relay_small
  have hserial := (serializable_in_commit_order create_smallPool smallTables_sound hw).1
  rw [hist] at hserial
  refine ⟨w, hw, hist, hserial, ?_⟩
  exact (congrFun (congrArg Prod.fst hserial) ⟨⟨1⟩, 0⟩).symm

end World

end PageEngine
