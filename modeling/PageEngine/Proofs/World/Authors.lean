import PageEngine.Proofs.World.Deeds
import PageEngine.Proofs.World.Handles

/-!
# `Proofs/World/Authors.lean` — whose changes the end of a transaction saves or undoes

A dirty page carries the name of one transaction, and an abort or a commit treats all that is in it as the
work of that one. What this rests on, also where files fail:

> **all that was changed in a cached page since it was last settled is by one transaction**, apart from
> what failed commits have left there;
>
> **a transaction that has nothing exclusively has nothing to write**, apart from what failed commits have
> left dirty.

A commit that fails does leave pages dirty, and its locks go (`abandoned_small`). The next transaction to
change such a page undoes the change of the first one when it aborts, and the next one to read it writes
it when it commits.
-/

set_option autoImplicit false

namespace PageEngine

open Std

namespace Audited

variable {capacity : Nat} {draws : Draws} {d : Tables} {P : Pool Tables} {a : Audited} {p : PageId}
  {f : FrameId}

/-! ## Calls that nobody comes in between -/

/-- The world of a run of calls. -/
theorem world_run (as : List Action) : ∀ a : Audited, (a.run (as.map .act)).world = a.world.run as := by
  induction as with
  | nil => exact fun a => rfl
  | cons x as ih => exact fun a => ih (a.next (.act x))

theorem Reachable.serve (ha : Reachable P a) {x : Action} (hx : x.Enabled a.world) (hkind : x.ThroughPool)
    (t : TxnId) (n : Nat) :
    Reachable P (a.run (.act x :: List.replicate n (.act (.advance t)))) := by
  have hfirst := ha.step (Deed.allowed_of_enabled hx hkind)
  show Reachable P ((a.next (.act x)).run (List.replicate n (.act (.advance t))))
  generalize a.next (.act x) = b at hfirst
  induction n generalizing b with
  | zero => exact hfirst
  | succ n ih => exact ih _ (hfirst.step ⟨trivial, trivial⟩)

/-- A deed that leaves the frames alone leaves the trails. -/
theorem next_of_frames {w v : World} {A : FrameId → Trail} {x : Deed} (hA : Unborn w.pool A)
    (hx : w.settles x = none) (hv : w.perform x = v) (hf : v.pool.frames = w.pool.frames) :
    (Audited.mk w A).next x = ⟨v, A⟩ := by
  rw [next_eq hx]
  dsimp only
  rw [hv]
  exact congrArg (Audited.mk v) (after_of_frames hA hf)

/-- A transaction overwrites a page that it can lock. -/
theorem run_edit (hA : Unborn a.world.pool a.trail) {t : TxnId} (hidle : a.world.tasks t = none)
    {L : LockTable} {Q : Pool Tables} (hgrant : a.world.pool.locks.attempt p t .exclusive = (L, .granted))
    (hfetch : (a.world.pool.withLocks L).fetch p = (Q, .ok f)) (rule : Rule) {d : PageData}
    (hd : d = rule (History.reads t a.world.history ++ [(Q.page f).data])) :
    a.run (.act (.edit t p rule) :: List.replicate 3 (.act (.advance t))) =
      ⟨{ pool := Q.setPage f (((Q.page f).withData d).markDirty t)
         tasks := a.world.tasks
         history := .edited t p rule d :: .got t p (Q.page f).data :: a.world.history },
       Trail.after a.trail (some t) a.world.pool
         (Q.setPage f (((Q.page f).withData d).markDirty t)) no no⟩ := by
  subst hd
  obtain ⟨w, A⟩ := a
  have hasked : (Audited.mk w A).next (.act (.edit t p rule)) = ⟨w.setTask t (some
      { call := { txn := t, activity := .start (.get p .write) }, rule }), A⟩ :=
    next_of_frames hA rfl rfl rfl
  have hstarted : (Audited.mk (w.setTask t (some
      { call := { txn := t, activity := .start (.get p .write) }, rule })) A).next (.act (.advance t)) =
      ⟨w.setTask t (some { call := { txn := t, activity := .locking p .exclusive .deliver }, rule }), A⟩ := by
    refine next_of_frames hA ?_ ?_ rfl
    · simp [World.settles, World.setTask]
    · simp [World.perform, World.act, World.advance, World.runSection, World.setTask, Call.step,
        Call.start, Call.goOn, Access.mode, Task.after, Task.nextDraft, Task.events, Call.result?]
  have hlocked : (Audited.mk (w.setTask t (some
      { call := { txn := t, activity := .locking p .exclusive .deliver }, rule })) A).next
        (.act (.advance t)) =
      ⟨{ w.setTask t (some { call := { txn := t, activity := .fetching p .deliver }, rule }) with
          pool := w.pool.withLocks L }, A⟩ := by
    refine next_of_frames hA ?_ ?_ rfl
    · simp [World.settles, World.setTask]
    · have hgrant' : w.pool.locks.attempt p t .exclusive = (L, .granted) := hgrant
      simp [World.perform, World.act, World.advance, World.runSection, World.setTask, Call.step,
        Call.attemptLock, Call.goOn, Task.after, Task.nextDraft, Task.events, Call.result?, hgrant']
  show ((((Audited.mk w A).next _).next _).next _).next _ = _
  rw [hasked, hstarted, hlocked, next_eq (by simp [World.settles, World.setTask])]
  have hw : World.perform { w.setTask t (some { call := { txn := t, activity := .fetching p .deliver }, rule })
      with pool := w.pool.withLocks L } (.act (.advance t)) =
      { pool := Q.setPage f (((Q.page f).withData
          (rule (History.reads t w.history ++ [(Q.page f).data]))).markDirty t)
        tasks := w.tasks
        history := .edited t p rule (rule (History.reads t w.history ++ [(Q.page f).data])) ::
          .got t p (Q.page f).data :: w.history } := by
    have hidle' : w.tasks t = none := hidle
    simp [World.perform, World.act, World.advance, World.editPage, World.setTask, hfetch, hidle']
  rw [hw]
  rfl

/-- A transaction commits; the commit may fail. -/
theorem run_commit (hA : Unborn a.world.pool a.trail) {t : TxnId} (hidle : a.world.tasks t = none)
    {Q : Pool Tables} {r : Except Error Unit} (hflush : a.world.pool.flushHeld t = (Q, r))
    (hsize : a.world.pool.frames.size ≤ Q.frames.size) :
    a.run (.act (.request t (.complete true)) :: List.replicate 3 (.act (.advance t))) =
      ⟨{ pool := (Q.releaseAll t).1.countEnd true
         tasks := a.world.tasks
         history := .ended t true :: a.world.history },
       Trail.after a.trail (some t) a.world.pool Q no (a.world.pool.strands t)⟩ := by
  obtain ⟨w, A⟩ := a
  have hidle' : w.tasks t = none := hidle
  have hflush' : w.pool.flushHeld t = (Q, r) := hflush
  have hasked : (Audited.mk w A).next (.act (.request t (.complete true))) = ⟨w.setTask t (some
      { call := { txn := t, activity := .start (.complete true) } }), A⟩ := next_of_frames hA rfl rfl rfl
  have hsettled : (Audited.mk (w.setTask t (some
      { call := { txn := t, activity := .start (.complete true) } })) A).next (.act (.advance t)) =
      ⟨{ pool := Q
         tasks := Function.update w.tasks t (some
           { call := { txn := t, activity := .releasing true r } })
         history := .ended t true :: w.history },
       Trail.after A (some t) w.pool Q no (w.pool.strands t)⟩ := by
    have hs : (w.setTask t (some { call := { txn := t, activity := .start (.complete true) } })).settles
        (.act (.advance t)) = some (t, true) := by
      simp [World.settles, World.setTask]
    have hw : (w.setTask t (some { call := { txn := t, activity := .start (.complete true) } })).perform
        (.act (.advance t)) =
        { pool := Q
          tasks := Function.update w.tasks t (some { call := { txn := t, activity := .releasing true r } })
          history := .ended t true :: w.history } := by
      simp [World.perform, World.act, World.advance, World.runSection, World.setTask, Call.step,
        Call.start, Call.goOn, Task.after, Task.nextDraft, Task.events, Call.result?, Pool.settlePages,
        hflush']
    rw [next, World.restored, World.stranded, hs]
    dsimp only
    rw [hw]
    rfl
  have hQ : Unborn Q (Trail.after A (some t) w.pool Q no (w.pool.strands t)) := unborn_after hsize
  generalize Trail.after A (some t) w.pool Q no (w.pool.strands t) = B at hsettled hQ
  have hreleased : (Audited.mk ⟨Q, Function.update w.tasks t (some
      { call := { txn := t, activity := .releasing true r } }), .ended t true :: w.history⟩ B).next
        (.act (.advance t)) = ⟨⟨(Q.releaseAll t).1, Function.update w.tasks t (some
      { call := { txn := t, activity := .ending true (Pool.bothOk r (Q.releaseAll t).2) } }),
        .ended t true :: w.history⟩, B⟩ := by
    refine next_of_frames hQ ?_ ?_ rfl
    · simp [World.settles]
    · simp [World.perform, World.act, World.advance, World.runSection, Call.step, Call.goOn, Task.after,
        Task.nextDraft, Task.events, Call.result?]
  have hended : (Audited.mk ⟨(Q.releaseAll t).1, Function.update w.tasks t (some
      { call := { txn := t, activity := .ending true (Pool.bothOk r (Q.releaseAll t).2) } }),
        .ended t true :: w.history⟩ B).next (.act (.advance t)) =
      ⟨⟨(Q.releaseAll t).1.countEnd true, w.tasks, .ended t true :: w.history⟩, B⟩ := by
    refine next_of_frames (w := ⟨(Q.releaseAll t).1, _, _⟩) hQ ?_ ?_ rfl
    · simp [World.settles]
    · simp [World.perform, World.act, World.advance, World.runSection, Call.step, Call.goOn, Call.finish,
        Task.after, Task.events, Call.result?, hidle']
  show ((((Audited.mk w A).next _).next _).next _).next _ = _
  rw [hasked, hsettled, hreleased, hended]

/-! ## A failed commit at the small pool -/

/-- The page of the small pool, as transaction 1 has counted it up. -/
def markedPage : Page := ((Page.ofData ⟨⟨1⟩, 0⟩ (World.smallTables.contents ⟨⟨1⟩, 0⟩)).withData
  World.counted).markDirty ⟨1⟩

/-- The small table over a file that refuses to be written. -/
def brokenTables : Tables :=
  { World.smallTables with disk := World.smallTables.disk.setFaults "t" { writesLeft := some 0 } }

theorem writePage_brokenTables : ∃ s, s.catalog = World.smallTables.catalog ∧
    brokenTables.writePage markedPage = (s, .error diskUnavailable) := by
  have hfails : (brokenTables.writePage markedPage).2 = .error diskUnavailable := by
    simp [Tables.writePage, Tables.store, World.smallTables, Tables.register, World.smallFile, Store.file,
      Store.table, HeapFile.writePage, Disk.writeAt, Disk.view, brokenTables, Disk.setFaults, Disk.file_put,
      FaultyFile.writeAt, markedPage, Page.ofData]
  exact ⟨_, brokenTables.catalog_writePage markedPage, Prod.ext rfl hfails⟩

/-- The small pool caches its page as its first frame, and nobody has a call in flight. -/
structure OneFrame (x : Page) (a : Audited) : Prop where
  reachable : Reachable World.smallPool a
  idle : a.world.Idle
  frames : a.world.pool.frames = #[x]
  resident : ∀ (q : PageId) (g : FrameId), a.world.pool.resident[q]? = some g ↔ q = ⟨⟨1⟩, 0⟩ ∧ g = ⟨0⟩
  storage : a.world.pool.storage = World.smallTables

theorem OneFrame.accountable {x : Page} (h : OneFrame x a) :
    Accountable a.world.pool a.trail a.world.tasks :=
  h.reachable.accountable World.create_smallPool World.smallTables_sound.heapsOnly

theorem OneFrame.page {x : Page} (h : OneFrame x a) : a.world.pool.page ⟨0⟩ = x := by
  simp [Pool.page, h.frames]

theorem OneFrame.cached {x : Page} (h : OneFrame x a) :
    a.world.pool.resident[(⟨⟨1⟩, 0⟩ : PageId)]? = some ⟨0⟩ := (h.resident _ _).2 ⟨rfl, rfl⟩

/-- Transaction 1 counts the page up. -/
theorem marked_small : ∃ a, OneFrame markedPage a ∧
    (∀ q u, a.world.pool.locks.modeOf q u =
      if q = ⟨⟨1⟩, 0⟩ ∧ u = ⟨1⟩ then some .exclusive else none) ∧
    a.trail ⟨0⟩ = ⟨[⟨1⟩], []⟩ ∧ History.reads ⟨2⟩ a.world.history = [] := by
  obtain ⟨Q, hQ, hlocks, hframes, hres, hstorage⟩ : ∃ Q,
      (World.smallPool.withLocks (World.smallPool.locks.attempt ⟨⟨1⟩, 0⟩ ⟨1⟩ .exclusive).1).fetch
        ⟨⟨1⟩, 0⟩ = (Q, .ok ⟨0⟩) ∧ Q.locks = (World.smallPool.locks.attempt ⟨⟨1⟩, 0⟩ ⟨1⟩ .exclusive).1 ∧
      Q.frames = #[Page.ofData ⟨⟨1⟩, 0⟩ (World.smallTables.contents ⟨⟨1⟩, 0⟩)] ∧
      (∀ (q : PageId) (g : FrameId), Q.resident[q]? = some g ↔ q = ⟨⟨1⟩, 0⟩ ∧ g = ⟨0⟩) ∧
      Q.storage = World.smallTables := by
    refine ⟨_, Pool.fetch_of_room World.smallTables_sound (by simp [World.smallPool, Pool.withLocks])
      (by simp [World.smallPool, Pool.withLocks]) ?_ ?_, rfl, rfl, ?_, rfl⟩
    · show 0 < World.smallTables.pages ⟨1⟩
      rw [World.smallTables_pages]
      decide
    · show World.smallTables.pages ⟨1⟩ ≤ maxPageNo
      rw [World.smallTables_pages]
      decide
    · intro q g
      rw [Pool.resident_cache]
      by_cases hq : q = ⟨⟨1⟩, 0⟩
      · simp [hq, eq_comm, World.smallPool, Pool.withLocks, Pool.nextFrame]
      · simp [hq, World.smallPool, Pool.withLocks, Pool.tally, Pool.addFrame]
  have hfree : ∀ (q : PageId) (u : TxnId), World.smallPool.locks.modeOf q u = none := LockTable.modeOf_empty
  have hgrant := LockTable.attempt_of_unheld (hfree ⟨⟨1⟩, 0⟩) ⟨1⟩ .exclusive
  have hpage : Q.page ⟨0⟩ = Page.ofData ⟨⟨1⟩, 0⟩ (World.smallTables.contents ⟨⟨1⟩, 0⟩) := by
    simp [Pool.page, hframes]
  have hrun := run_edit (a := start World.smallPool) (t := ⟨1⟩) (fun _ _ => rfl) rfl hgrant hQ
    World.countUp (d := World.counted) (by rw [hpage]; rfl)
  have hreach := (Reachable.start (P := World.smallPool)).serve (x := .edit ⟨1⟩ ⟨⟨1⟩, 0⟩ World.countUp)
    rfl trivial ⟨1⟩ 3
  rw [hrun] at hreach
  have hmark : (Q.setPage ⟨0⟩ (((Q.page ⟨0⟩).withData World.counted).markDirty ⟨1⟩)).page ⟨0⟩ =
      markedPage := by
    rw [Pool.page_setPage, if_pos ⟨rfl, by simp [hframes]⟩, hpage]
    rfl
  refine ⟨_, ⟨hreach, fun _ => rfl, ?_, hres, hstorage⟩, ?_, ?_, rfl⟩
  · simp [Pool.setPage, hframes, hpage, markedPage]
  · intro q u
    show Q.locks.modeOf q u = _
    rw [hlocks, LockTable.modeOf_attempt, hgrant, hfree, hfree]
    simp [Mode.raised]
  · -- The frame is new, and its data is not what was read.
    show Trail.after _ _ World.smallPool _ no no ⟨0⟩ = _
    have hnew : ¬(⟨0⟩ : FrameId).index < World.smallPool.frames.size := by simp [World.smallPool]
    rw [Trail.after, if_neg hnew, Pool.prior, if_neg hnew, hmark]
    have hdata : markedPage.data ≠ markedPage.before.data := World.countUp_ne _
    have hdirty : markedPage.settled = false := by simp [Page.settled, Page.isClean, markedPage]
    simp [Trail.next, no, hdata, hdirty]

section Broken

variable {s : Tables}

/-- While the file refuses to be written the commit of transaction 1 fails. -/
theorem OneFrame.flushHeld_broken (h : OneFrame markedPage a)
    (hX : a.world.pool.locks.modeOf ⟨⟨1⟩, 0⟩ ⟨1⟩ = some .exclusive)
    (hw : brokenTables.writePage markedPage = (s, .error diskUnavailable)) :
    (a.world.pool.withStorage brokenTables).flushHeld ⟨1⟩ =
      (a.world.pool.withStorage s, .error diskUnavailable) := by
  refine Pool.flushHeld_of_failing (f := ⟨0⟩) h.cached (fun q g hg => ((h.resident q g).1 hg).1) ?_
    ((LockTable.mem_heldPages h.accountable.locks).2 ?_) ?_
  · show (a.world.pool.page ⟨0⟩).dirty ≠ none
    rw [h.page]
    simp [markedPage]
  · rw [hX]
    rfl
  · show brokenTables.writePage (a.world.pool.page ⟨0⟩) = _
    rw [h.page, hw]

/-- It leaves the frame behind as it is. -/
theorem OneFrame.trail_broken (h : OneFrame markedPage a)
    (hX : a.world.pool.locks.modeOf ⟨⟨1⟩, 0⟩ ⟨1⟩ = some .exclusive)
    (hw : brokenTables.writePage markedPage = (s, .error diskUnavailable))
    (htrail : a.trail ⟨0⟩ = ⟨[⟨1⟩], []⟩) :
    Trail.after a.trail (some ⟨1⟩) (a.world.pool.withStorage brokenTables) (a.world.pool.withStorage s) no
      ((a.world.pool.withStorage brokenTables).strands ⟨1⟩) ⟨0⟩ = ⟨[⟨1⟩], [⟨1⟩]⟩ := by
  have hbroken : (a.world.pool.withStorage brokenTables).page ⟨0⟩ = markedPage := h.page
  have hleft : (a.world.pool.withStorage s).page ⟨0⟩ = markedPage := h.page
  have hstranded : (a.world.pool.withStorage brokenTables).strands ⟨1⟩ ⟨0⟩ = true := by
    have hid : ((a.world.pool.withStorage brokenTables).page ⟨0⟩).id = ⟨⟨1⟩, 0⟩ := by
      rw [hbroken]
      rfl
    have hres : (a.world.pool.withStorage brokenTables).resident[(⟨⟨1⟩, 0⟩ : PageId)]? = some ⟨0⟩ :=
      h.cached
    have hheld : (a.world.pool.withStorage brokenTables).locks.holds ⟨⟨1⟩, 0⟩ ⟨1⟩ = true := by
      show (a.world.pool.locks.modeOf _ _).isSome = true
      rw [hX]
      rfl
    rw [Pool.strands, hid, h.flushHeld_broken hX hw, hheld, hres]
    simp [Except.isOk, Except.toBool]
  have hlt : (⟨0⟩ : FrameId).index < (a.world.pool.withStorage brokenTables).frames.size := by
    simp [Pool.withStorage, h.frames]
  have hdirty : markedPage.settled = false := by simp [Page.settled, Page.isClean, markedPage]
  rw [Trail.after, if_pos hlt, Pool.prior_of_lt hlt, hstranded, hbroken, hleft, htrail]
  simp [Trail.next, no, hdirty]

end Broken

/-- Then the file begins to fail, transaction 1 commits in vain, and the file is whole again. -/
theorem abandoned_small : ∃ a, OneFrame markedPage a ∧
    (∀ q u, a.world.pool.locks.modeOf q u = none) ∧ a.trail ⟨0⟩ = ⟨[⟨1⟩], [⟨1⟩]⟩ ∧
    History.reads ⟨2⟩ a.world.history = [] := by
  obtain ⟨a, ha, hmodes, htrail, hreads⟩ := marked_small
  obtain ⟨s, hcat, hw⟩ := writePage_brokenTables
  have hi := ha.accountable
  have hX : a.world.pool.locks.modeOf ⟨⟨1⟩, 0⟩ ⟨1⟩ = some .exclusive := by rw [hmodes, if_pos ⟨rfl, rfl⟩]
  have hfails : a.next (.disturb brokenTables.disk) =
      ⟨{ a.world with pool := a.world.pool.withStorage brokenTables }, a.trail⟩ := by
    refine next_of_frames hi.unborn rfl ?_ rfl
    rw [World.perform, ha.storage]
    rfl
  have hreach := ha.reachable.step (d := .disturb brokenTables.disk) trivial
  rw [hfails] at hreach
  have hrun := run_commit (a := ⟨{ a.world with pool := a.world.pool.withStorage brokenTables }, a.trail⟩)
    hi.unborn (ha.idle ⟨1⟩) (ha.flushHeld_broken hX hw) (Nat.le_refl _)
  have hreach' := hreach.serve (x := .request ⟨1⟩ (.complete true)) (ha.idle ⟨1⟩) trivial ⟨1⟩ 3
  rw [hrun] at hreach'
  have hgone : Unborn (a.world.pool.withStorage s) (Trail.after a.trail (some ⟨1⟩)
      (a.world.pool.withStorage brokenTables) (a.world.pool.withStorage s) no
      ((a.world.pool.withStorage brokenTables).strands ⟨1⟩)) := unborn_after (Nat.le_refl _)
  have hdisk : ({ s with disk := World.smallTables.disk } : Tables) = World.smallTables := by rw [hcat]
  have hwhole := next_of_frames (x := .disturb World.smallTables.disk)
    (w := ⟨((a.world.pool.withStorage s).releaseAll ⟨1⟩).1.countEnd true, a.world.tasks,
      .ended ⟨1⟩ true :: a.world.history⟩)
    (v := ⟨(((a.world.pool.withStorage s).releaseAll ⟨1⟩).1.countEnd true).withStorage
      World.smallTables, a.world.tasks, .ended ⟨1⟩ true :: a.world.history⟩) hgone rfl (by
        show World.mk (Pool.withStorage _ { s with disk := World.smallTables.disk }) _ _ = _
        rw [hdisk]) rfl
  have hlast := hreach'.step (d := .disturb World.smallTables.disk) trivial
  rw [hwhole] at hlast
  refine ⟨_, ⟨hlast, ha.idle, ha.frames, ha.resident, rfl⟩, ?_, ha.trail_broken hX hw htrail, ?_⟩
  · intro q u
    show (a.world.pool.locks.releaseAll ⟨1⟩).1.modeOf q u = none
    rw [(LockTable.releaseAll_spec hi.locks ⟨1⟩).2, hmodes]
    by_cases hu : u = ⟨1⟩ <;> simp [hu]
  · show History.reads ⟨2⟩ (.ended ⟨1⟩ true :: a.world.history) = []
    rw [History.reads, if_neg (by decide), hreads]

/-! ## Whose changes they are -/

/-- The end of a transaction reworks the frames of pages that it holds. -/
theorem held_of_settled (hP : P.Filed) (hl : P.locks.Consistent) (hf : P.resident[p]? = some f)
    {t : TxnId} {commit : Bool} (hne : (P.settlePages t commit).1.page f ≠ P.page f) :
    (P.locks.modeOf p t).isSome := by
  rw [← LockTable.mem_heldPages hl]
  by_contra hnot
  have hother : ∀ q ∈ P.locks.heldPages t, P.resident[q]? ≠ some f := by
    intro q hq hqf
    exact hnot (hP.eq_of_resident hqf hf ▸ hq)
  apply hne
  cases commit with
  | false => exact (Pool.restoreHeld_spec hP t).2.other f hother
  | true => exact Pool.page_flushHeld hother

/-- **What is in a cached page has one author.** Whoever has changed it since it was last settled is the
transaction whose name a dirty page carries, and is also the only one that holds the page, and whose end
brings it back or saves it. The exception are changes and marks that failed commits have left behind. -/
theorem one_author (hP : Pool.create capacity draws d = .ok P) (hd : d.HeapsOnly) (ha : Reachable P a)
    (hf : a.world.pool.resident[p]? = some f) :
    (∀ t, (a.world.pool.page f).dirty = some t → ∀ u ∈ (a.trail f).authors,
      u = t ∨ u ∈ (a.trail f).abandoned ∨ t ∈ (a.trail f).abandoned) ∧
    (∀ t, (a.world.pool.locks.modeOf p t).isSome → ∀ u ∈ (a.trail f).authors,
      u = t ∨ u ∈ (a.trail f).abandoned) ∧
    ∀ t commit, (a.world.pool.settlePages t commit).1.page f ≠ a.world.pool.page f →
      ∀ u ∈ (a.trail f).authors, u = t ∨ u ∈ (a.trail f).abandoned := by
  have hi := ha.accountable hP hd
  have hid := (hi.filed p f hf).2
  -- An author who has not abandoned the page has it exclusively.
  have hauthor : ∀ u ∈ (a.trail f).authors,
      u ∈ (a.trail f).abandoned ∨ a.world.pool.locks.modeOf p u = some .exclusive := by
    intro u hu
    rw [← hid]
    exact hi.accounted p f hf u (.inl hu)
  have hholder : ∀ t, (a.world.pool.locks.modeOf p t).isSome → ∀ u ∈ (a.trail f).authors,
      u = t ∨ u ∈ (a.trail f).abandoned := by
    intro t ht u hu
    rcases hauthor u hu with hab | hX
    · exact .inr hab
    · exact .inl (LockTable.eq_of_modeOf_exclusive hX ht).symm
  refine ⟨?_, hholder, ?_⟩
  · intro t hdirty u hu
    rcases hi.accounted p f hf t (.inr hdirty) with hab | hX
    · exact .inr (.inr hab)
    · exact (hholder t (by rw [← hid, hX]; rfl) u hu).imp_right .inl
  · intro t commit hne u hu
    exact hholder t (held_of_settled hi.filed hi.locks hf hne) u hu

/-- Transaction 1 has counted the page of the small pool up and not ended: it is its only author. -/
theorem one_author_marked : ∃ a, Reachable World.smallPool a ∧
    a.world.pool.resident[(⟨⟨1⟩, 0⟩ : PageId)]? = some ⟨0⟩ ∧
    (a.world.pool.page ⟨0⟩).dirty = some ⟨1⟩ ∧ (a.trail ⟨0⟩).abandoned = [] ∧
    ⟨1⟩ ∈ (a.trail ⟨0⟩).authors ∧ ∀ u ∈ (a.trail ⟨0⟩).authors, u = ⟨1⟩ := by
  obtain ⟨a, ha, -, htrail, -⟩ := marked_small
  have hcached := ha.cached
  have hdirty : (a.world.pool.page ⟨0⟩).dirty = some ⟨1⟩ := by
    rw [ha.page]
    rfl
  refine ⟨a, ha.reachable, hcached, hdirty, by rw [htrail], by rw [htrail]; exact List.mem_singleton.2 rfl,
    fun u hu => ?_⟩
  have hone := (one_author World.create_smallPool World.smallTables_sound.heapsOnly ha.reachable hcached).1 ⟨1⟩ hdirty
    u hu
  rw [htrail] at hone
  simpa using hone

/-- **A change of another transaction is undone.** Transaction 1 counts the page up, and its commit fails.
Transaction 2 finds the counted page, counts it up once more and marks it; its abort takes both changes
back. -/
theorem heir_undoes_change : ∃ a, Reachable World.smallPool a ∧
    a.world.pool.resident[(⟨⟨1⟩, 0⟩ : PageId)]? = some ⟨0⟩ ∧
    (a.world.pool.page ⟨0⟩).dirty = some ⟨2⟩ ∧ ⟨1⟩ ∈ (a.trail ⟨0⟩).authors ∧
    .got ⟨2⟩ ⟨⟨1⟩, 0⟩ World.counted ∈ a.world.history ∧
    ((a.world.pool.settlePages ⟨2⟩ false).1.page ⟨0⟩).data ≠ World.counted := by
  obtain ⟨a, ha, hmodes, htrail, hreads⟩ := abandoned_small
  have hi := ha.accountable
  have hcached := ha.cached
  have hgrant := LockTable.attempt_of_unheld (hmodes ⟨⟨1⟩, 0⟩) ⟨2⟩ .exclusive
  obtain ⟨Q, hfetch, hlocks, hframes, hres⟩ : ∃ Q, (a.world.pool.withLocks
      (a.world.pool.locks.attempt ⟨⟨1⟩, 0⟩ ⟨2⟩ .exclusive).1).fetch ⟨⟨1⟩, 0⟩ = (Q, .ok ⟨0⟩) ∧
      Q.locks = (a.world.pool.locks.attempt ⟨⟨1⟩, 0⟩ ⟨2⟩ .exclusive).1 ∧
      Q.frames = a.world.pool.frames ∧ Q.resident = a.world.pool.resident :=
    ⟨_, Pool.fetch_of_resident hcached, rfl, rfl, rfl⟩
  have hQpage : Q.page ⟨0⟩ = markedPage := (Pool.page_congr hframes _).trans ha.page
  have hrun := run_edit hi.unborn (ha.idle ⟨2⟩) hgrant hfetch World.countUp
    (d := World.countUp [World.counted]) (by rw [hreads, hQpage]; rfl)
  have hreach := ha.reachable.serve (x := .edit ⟨2⟩ ⟨⟨1⟩, 0⟩ World.countUp) (ha.idle ⟨2⟩) trivial ⟨2⟩ 3
  rw [hrun] at hreach
  have hlt : (⟨0⟩ : FrameId).index < Q.frames.size := by simp [hframes, ha.frames]
  have hself : (Q.setPage ⟨0⟩ (((Q.page ⟨0⟩).withData (World.countUp [World.counted])).markDirty ⟨2⟩)).page
      ⟨0⟩ = (markedPage.withData (World.countUp [World.counted])).markDirty ⟨2⟩ := by
    rw [Pool.page_setPage, if_pos ⟨rfl, hlt⟩, hQpage]
  refine ⟨_, hreach, ?_, ?_, ?_, ?_, ?_⟩
  · show Q.resident[_]? = _
    rw [hres]
    exact hcached
  · show (Pool.page _ ⟨0⟩).dirty = _
    rw [hself]
    rfl
  · have hold : (⟨0⟩ : FrameId).index < a.world.pool.frames.size := by simp [ha.frames]
    show ⟨1⟩ ∈ (Trail.after _ _ a.world.pool _ no no ⟨0⟩).authors
    rw [Trail.after, if_pos hold, Pool.prior_of_lt hold, hself, htrail]
    have hdirty : ((markedPage.withData (World.countUp [World.counted])).markDirty ⟨2⟩).settled = false :=
      Page.settled_of_dirty rfl
    simp only [Trail.next, no, hdirty, Bool.and_false, Bool.or_self, Bool.false_eq_true, if_false]
    split
    · exact List.mem_singleton.2 rfl
    · exact List.mem_append_right _ (List.mem_singleton.2 rfl)
  · simp [hQpage, markedPage]
  · have hi' := hreach.accountable World.create_smallPool World.smallTables_sound.heapsOnly
    show (Pool.page (Pool.restoreHeld _ ⟨2⟩) ⟨0⟩).data ≠ _
    rw [Pool.page_restoreHeld hi'.filed hi'.locks, hself, if_pos]
    · exact (World.countUp_ne _).symm
    · have hX : Q.locks.modeOf ⟨⟨1⟩, 0⟩ ⟨2⟩ = some .exclusive := by
        rw [hlocks, LockTable.modeOf_attempt, hgrant, hmodes]
        simp [Mode.raised]
      have hQres : Q.resident[(⟨⟨1⟩, 0⟩ : PageId)]? = some ⟨0⟩ := by rw [hres]; exact hcached
      simp only [Pool.restores, hself]
      simp [Pool.setPage, markedPage, Page.ofData, hX, hQres]

/-! ## Who has nothing to write -/

/-- **The commit of a transaction that has nothing exclusively asks nothing of the storage**, whichever it
is, if no failed commit has left its part in a page that it holds; at any rate whatever dirty page it
holds was left so by a failed commit of the transaction whose name it carries. -/
theorem reader_writes_nothing (hP : Pool.create capacity draws d = .ok P) (hd : d.HeapsOnly)
    (ha : Reachable P a) {t : TxnId} (ht : ∀ p, a.world.pool.locks.modeOf p t ≠ some .exclusive) :
    (∀ p ∈ a.world.pool.locks.heldPages t, ∀ f, a.world.pool.resident[p]? = some f →
      ∀ u, (a.world.pool.page f).dirty = some u → u ∈ (a.trail f).abandoned) ∧
    ((∀ p ∈ a.world.pool.locks.heldPages t, ∀ f, a.world.pool.resident[p]? = some f →
      (a.trail f).abandoned = []) →
      ∀ {δ : Type} [Storage δ] (s : δ), ((a.world.pool.withStorage s).complete t true).2 = .ok () ∧
        ((a.world.pool.withStorage s).complete t true).1.storage = s) := by
  have hi := ha.accountable hP hd
  have hleft : ∀ p ∈ a.world.pool.locks.heldPages t, ∀ f, a.world.pool.resident[p]? = some f →
      ∀ u, (a.world.pool.page f).dirty = some u → u ∈ (a.trail f).abandoned := by
    intro p hp f hf u hu
    refine (hi.accounted p f hf u (.inr hu)).resolve_right fun hX => ?_
    rw [(hi.filed p f hf).2] at hX
    -- Who has the page exclusively has it alone.
    have htu := LockTable.eq_of_modeOf_exclusive hX ((LockTable.mem_heldPages hi.locks).1 hp)
    exact ht p (htu ▸ hX)
  refine ⟨hleft, ?_⟩
  intro hnone δ _ s
  refine Pool.complete_of_clean (P := a.world.pool.withStorage s) hi.locks fun p hp f hf => ?_
  by_contra hdirty
  obtain ⟨u, hu⟩ := Option.ne_none_iff_exists'.1 hdirty
  have habandoned := hleft p hp f hf u hu
  rw [hnone p hp f hf] at habandoned
  exact List.not_mem_nil habandoned

/-- Transaction 2 reads the page of the small pool, and its commit leaves the store alone. -/
theorem reader_writes_nothing_first : ∃ a, Reachable World.smallPool a ∧
    ⟨⟨1⟩, 0⟩ ∈ a.world.pool.locks.heldPages ⟨2⟩ ∧
    (∀ p, a.world.pool.locks.modeOf p ⟨2⟩ ≠ some .exclusive) ∧
    (a.world.pool.complete ⟨2⟩ true).2 = .ok () ∧
    (a.world.pool.complete ⟨2⟩ true).1.storage = a.world.pool.storage := by
  obtain ⟨-, Q, hget, -, -, hlocks, -, -⟩ := World.get_first (p := ⟨⟨1⟩, 0⟩) World.create_smallPool
    World.smallTables_sound (by rw [World.smallTables_pages]; decide)
    (by rw [World.smallTables_pages]; decide) ⟨2⟩ .read
  have hstart : World.Reachable Action.ThroughPool World.smallPool (.start World.smallPool) := .start
  have hw := hstart.serve (a := .request ⟨2⟩ (.get ⟨⟨1⟩, 0⟩ .read)) rfl trivial ⟨2⟩ trivial 4
  rw [hget] at hw
  obtain ⟨A, hA, hnone⟩ := reachable_of_sound World.create_smallPool World.smallTables_sound hw
  have hi := hA.accountable World.create_smallPool World.smallTables_sound.heapsOnly
  have hmodes : ∀ q, Q.locks.modeOf q ⟨2⟩ = if q = ⟨⟨1⟩, 0⟩ then some .shared else none := by
    intro q
    rw [hlocks, LockTable.modeOf_attempt, LockTable.attempt_of_unheld fun u => LockTable.modeOf_empty _ u,
      LockTable.modeOf_empty, LockTable.modeOf_empty]
    simp [Mode.raised, Access.mode]
  have hreads : ∀ q, Q.locks.modeOf q ⟨2⟩ ≠ some .exclusive := by
    intro q
    rw [hmodes]
    split <;> simp
  have hquiet := (reader_writes_nothing World.create_smallPool World.smallTables_sound.heapsOnly hA hreads).2
    (fun p _ f _ => hnone f) Q.storage
  exact ⟨_, hA, (LockTable.mem_heldPages hi.locks).2 (by rw [hmodes, if_pos rfl]; rfl), hreads, hquiet⟩

/-- **A reader writes.** Transaction 1 counts the page up, and its commit fails. Transaction 2 only reads the
page, and its commit stores what transaction 1 has made of it. -/
theorem reader_writes_abandoned_page : ∃ a, Reachable World.smallPool a ∧
    (∀ p, a.world.pool.locks.modeOf p ⟨2⟩ ≠ some .exclusive) ∧
    (a.world.pool.complete ⟨2⟩ true).1.storage.contents ⟨⟨1⟩, 0⟩ ≠
      a.world.pool.storage.contents ⟨⟨1⟩, 0⟩ := by
  obtain ⟨a, ha, hmodes, -, -⟩ := abandoned_small
  have hcached := ha.cached
  have hgrant := LockTable.attempt_of_unheld (hmodes ⟨⟨1⟩, 0⟩) ⟨2⟩ .shared
  obtain ⟨Q, hfetch, hlocks, hframes, hres, hstorage⟩ : ∃ Q, (a.world.pool.withLocks
      (a.world.pool.locks.attempt ⟨⟨1⟩, 0⟩ ⟨2⟩ .shared).1).fetch ⟨⟨1⟩, 0⟩ = (Q, .ok ⟨0⟩) ∧
      Q.locks = (a.world.pool.locks.attempt ⟨⟨1⟩, 0⟩ ⟨2⟩ .shared).1 ∧
      Q.frames = a.world.pool.frames ∧ Q.resident = a.world.pool.resident ∧
      Q.storage = a.world.pool.storage :=
    ⟨_, Pool.fetch_of_resident hcached, rfl, rfl, rfl, rfl⟩
  have hreach := ha.reachable.serve (x := .request ⟨2⟩ (.get ⟨⟨1⟩, 0⟩ .read)) (ha.idle ⟨2⟩) trivial ⟨2⟩ 4
  have hworld := (world_run (.request ⟨2⟩ (.get ⟨⟨1⟩, 0⟩ .read) :: List.replicate 4 (.advance ⟨2⟩)) a).trans
    (World.get_alone (a := .read) (ha.idle ⟨2⟩) hgrant hfetch)
  rw [List.map_cons, List.map_replicate] at hworld
  have hi := hreach.accountable World.create_smallPool World.smallTables_sound.heapsOnly
  refine ⟨_, hreach, ?_⟩
  rw [hworld] at hi ⊢
  have hread : ∀ q, Q.locks.modeOf q ⟨2⟩ = if q = ⟨⟨1⟩, 0⟩ then some .shared else none := by
    intro q
    rw [hlocks, LockTable.modeOf_attempt, hgrant, hmodes, hmodes]
    simp [Mode.raised]
  refine ⟨?_, ?_⟩
  · intro q
    show Q.locks.modeOf q ⟨2⟩ ≠ _
    rw [hread]
    split <;> simp
  · have hsmall : Q.storage = World.smallTables := hstorage.trans ha.storage
    have hpages : ∀ (q : PageId) (g : FrameId), Q.resident[q]? = some g → Q.storage.HasPage q := by
      intro q g hg
      obtain ⟨rfl, -⟩ := (ha.resident q g).1 (hres ▸ hg)
      rw [hsmall]
      refine ⟨?_, by decide⟩
      show 0 < World.smallTables.pages ⟨1⟩
      rw [World.smallTables_pages]
      decide
    have hpage : Q.page ⟨0⟩ = markedPage := (Pool.page_congr hframes _).trans ha.page
    obtain ⟨-, hwritten⟩ := Pool.flushHeld_spec (hsmall ▸ World.smallTables_sound) hi.filed hpages ⟨2⟩
    show (Q.flushHeld ⟨2⟩).1.storage.contents _ ≠ Q.storage.contents _
    rw [hwritten.listed ⟨⟨1⟩, 0⟩ ((LockTable.mem_heldPages hi.locks).2 ?_) ⟨0⟩ (hres ▸ hcached), hpage,
      hsmall]
    · exact World.countUp_ne _
    · rw [hpage]
      simp [markedPage]
    · show (Q.locks.modeOf _ _).isSome = true
      rw [hread, if_pos rfl]
      rfl

end Audited

end PageEngine
