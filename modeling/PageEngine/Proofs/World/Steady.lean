import PageEngine.Proofs.World.Heeding

/-!
# `Proofs/World/Steady.lean` — runs in which anybody may write pages out

Pages may be written out early here, by anybody and at any time, so the stores hold changes that are not
committed, and what a page holds can no longer be told from what was committed. What stays true is who may
change what:

> **whoever has changed a page holds it exclusively until its end** (`Steady.owned`), whether the change is
> still in the cache, was written out, or was evicted since.

No call on a file fails and nothing is discarded (`Deed.Harmless`).
-/

set_option autoImplicit false

namespace PageEngine

open Std

/-! ## Runs -/

/-- Transactions do what they may, and pages are written out at any time. -/
def Deed.Harmless (w : World) : Deed → Prop
  | act a => a.Enabled w ∧ a.ThroughPool
  | flushPage _ => True
  | flushAll => True
  | flushHeld _ => True
  | discard _ => False
  | disturb _ => False

theorem Deed.Harmless.allowed {w : World} {d : Deed} (h : d.Harmless w) : d.Allowed w := by
  cases d with
  | act a => exact Deed.allowed_of_enabled h.1 h.2
  | _ => trivial

/-- The worlds to which deeds of one kind lead. -/
inductive World.ComesBy (kind : World → Deed → Prop) (w : World) : World → Prop
  | refl : ComesBy kind w w
  | step {v : World} {d : Deed} : ComesBy kind w v → kind v d → ComesBy kind w (v.perform d)

/-- Runs of calls alone are such runs. -/
theorem World.Reachable.comesBy {P : Pool Tables} {w : World} (hw : Reachable Action.ThroughPool P w) :
    (World.start P).ComesBy Deed.Harmless w := by
  induction hw with
  | start => exact .refl
  | @step w a _ hen ha ih => exact ih.step (d := .act a) ⟨hen, ha⟩

namespace World

/-! ## What holds between two deeds -/

/-- What holds of a world between any two deeds of a run in which no file fails and nothing is discarded. -/
structure Steady (w : World) : Prop where
  fits : ∃ A, Accountable w.pool A w.tasks
  sound : w.pool.storage.Sound
  /-- Every frame is an image of a page that its table has. -/
  housed : ∀ f : FrameId, f.index < w.pool.frames.size → w.pool.storage.HasPage (w.pool.page f).id
  /-- Whoever has changed a page holds it exclusively. -/
  owned : ∀ t p, History.own t p w.history ≠ none →
    w.pool.locks.modeOf p t = some .exclusive ∧ w.pool.storage.HasPage p
  heeds : ∀ t k, w.tasks t = some k → ActivityHeeds w.pool w.history t k.draft k.call.activity

section Steady

variable {w w' : World} {t u : TxnId} {k : Task} {p : PageId} {f : FrameId} {who : Option TxnId}

theorem Steady.filed (hw : w.Steady) : w.pool.Filed := by
  obtain ⟨A, hA⟩ := hw.fits
  exact hA.filed

theorem Steady.locks (hw : w.Steady) : w.pool.locks.Consistent := by
  obtain ⟨A, hA⟩ := hw.fits
  exact hA.locks

theorem Steady.within (hw : w.Steady) (hf : w.pool.resident[p]? = some f) : w.pool.storage.HasPage p := by
  obtain ⟨hlt, hid⟩ := hw.filed p f hf
  exact hid ▸ hw.housed f hlt

theorem Steady.lodged (hw : w.Steady) : w.pool.Lodged := ⟨hw.filed, hw.sound.apart_files, fun _ _ => hw.within⟩

/-- A frame that is about to be installed is one of a page that the transaction holds exclusively. -/
theorem Steady.grip (hw : w.Steady) (hk : w.tasks t = some k) (hf : k.call.activity.Changes f) :
    k.call.activity = .installing [f] ∧ f.index < w.pool.frames.size ∧
      w.pool.locks.modeOf (w.pool.page f).id t = some .exclusive ∧
      (w.pool.resident[(w.pool.page f).id]? = none ∨ w.pool.resident[(w.pool.page f).id]? = some f) := by
  obtain ⟨A, hA⟩ := hw.fits
  obtain ⟨hone, hg⟩ := (hA.fits t k hk).activity.grip hf
  exact ⟨hone, hg.index_lt, hg.exclusive, hg.resident⟩

/-- Nobody else has changed a page that `t` holds. -/
theorem Steady.own_none_of_held (hw : w.Steady) (hheld : (w.pool.locks.modeOf p t).isSome) (hu : u ≠ t) :
    History.own u p w.history = none := by
  by_contra hown
  exact hu (LockTable.eq_of_modeOf_exclusive (hw.owned u p hown).1 hheld).symm

theorem Steady.fitting (hw : w.Steady) (hk : w.tasks t = some k) : ∃ A, TaskFits w.pool A t k := by
  obtain ⟨A, hA⟩ := hw.fits
  exact ⟨A, hA.fits t k hk⟩

theorem Steady.txn (hw : w.Steady) (hk : w.tasks t = some k) : k.call.txn = t := by
  obtain ⟨A, hfits⟩ := hw.fitting hk
  exact hfits.txn

theorem Steady.lockEffect (hw : w.Steady) (hk : w.tasks t = some k) :
    LockEffect w.pool t k.call.activity (k.call.step w.pool).1 := by
  obtain ⟨A, hfits⟩ := hw.fitting hk
  have htxn := hfits.txn
  rw [← htxn]
  refine Call.lockEffect hw.sound hw.filed (fun p f => hw.within) fun q ha => ?_
  have hact := hfits.activity
  rw [ha] at hact
  exact htxn ▸ hact.1

theorem Steady.effect (hw : w.Steady) (hk : w.tasks t = some k) :
    Effect w.pool t k (k.call.step w.pool).1 (k.after (k.call.step w.pool).1 (k.call.step w.pool).2) := by
  obtain ⟨A, hfits⟩ := hw.fitting hk
  refine effect_of_step hfits hw.sound fun i ha => ?_
  have hheeds := hw.heeds t k hk
  rwa [ha] at hheeds

/-- A frame that a call is about to write to is one of a page that is held exclusively. -/
theorem Steady.grip_working (hw : w.Steady) (hk : w.tasks t = some k) {use : Use}
    (ha : k.call.activity = .working p f use) (hwrites : use.Writes) :
    (w.pool.page f).id = p ∧ w.pool.locks.modeOf p t = some .exclusive ∧
      (w.pool.resident[p]? = none ∨ w.pool.resident[p]? = some f) := by
  obtain ⟨A, hfits⟩ := hw.fitting hk
  have hact := hfits.activity
  rw [ha] at hact
  obtain ⟨-, -, hgrip⟩ := hact
  exact ⟨(hgrip hwrites).id_eq, (hgrip hwrites).exclusive, (hgrip hwrites).resident⟩

theorem Steady.onward (hw : w.Steady) (hk : w.tasks t = some k) :
    w.pool.Onward (some t) (k.call.step w.pool).1 := by
  refine (hw.effect hk).onward hw.sound hw.filed hw.locks (fun p f => hw.within) fun q f use ha hwrites => ?_
  obtain ⟨hid, hX, -⟩ := hw.grip_working hk ha hwrites
  exact hid ▸ hX

/-- **A deed of `who` keeps what holds**, if it leaves to the others what is theirs. -/
theorem Steady.move (who : Option TxnId) (hw : w.Steady) (hfits : ∃ A, Accountable w'.pool A w'.tasks)
    (hm : w.pool.Onward who w'.pool)
    (hothers : ∀ u, who ≠ some u → w'.tasks u = w.tasks u ∧ LeavesTo u w.pool w'.pool w.history w'.history)
    (howned : ∀ t p, who = some t → History.own t p w'.history ≠ none →
      w'.pool.locks.modeOf p t = some .exclusive ∧ w'.pool.storage.HasPage p)
    (hheeds : ∀ t k, who = some t → w'.tasks t = some k →
      ActivityHeeds w'.pool w'.history t k.draft k.call.activity) : w'.Steady where
  fits := hfits
  sound := hm.sound
  housed f hf := by
    by_cases hlt : f.index < w.pool.frames.size
    · rw [hm.ids f hlt]
      exact hm.hasPage _ (hw.housed f hlt)
    · exact hm.housed f (Nat.not_lt.1 hlt) hf
  owned t p hown := by
    by_cases ht : who = some t
    · exact howned t p ht hown
    · obtain ⟨-, hl⟩ := hothers t ht
      rw [hl.own] at hown
      obtain ⟨hX, hp⟩ := hw.owned t p hown
      exact ⟨(hl.modes p).trans hX, hm.hasPage p hp⟩
  heeds t k hk := by
    by_cases ht : who = some t
    · exact hheeds t k ht hk
    · obtain ⟨htask, hl⟩ := hothers t ht
      have hk' : w.tasks t = some k := htask.symm.trans hk
      refine (hw.heeds t k hk').leaves (fun f hf => ?_) ht hm hl
      obtain ⟨-, hlt, hX, -⟩ := hw.grip hk' hf
      exact ⟨hlt, hX⟩

/-! ## Sections -/

/-- What its transaction has changed after a section of a call, it holds exclusively. -/
theorem Steady.owned_step (hw : w.Steady) (hk : w.tasks t = some k)
    (hown : History.own t p (k.events w.pool (k.call.step w.pool).1 (k.call.step w.pool).2 ++ w.history) ≠ none) :
    (k.call.step w.pool).1.locks.modeOf p t = some .exclusive ∧ (k.call.step w.pool).1.storage.HasPage p := by
  have hlocks := hw.lockEffect hk
  have hheeds := hw.heeds t k hk
  have htxn := hw.txn hk
  by_cases hold : History.own t p w.history ≠ none
  · obtain ⟨hX, hp⟩ := hw.owned t p hold
    refine ⟨hlocks.exclusive hw.locks hX ?_ ?_, (hw.onward hk).hasPage p hp⟩
    · rintro i ha rfl
      rw [ha] at hheeds
      exact hold hheeds.2
    · intro commit r ha
      rw [ha] at hheeds
      exact hold (hheeds p)
  · -- The page is the one that the section installs.
    have hnone : History.own t p w.history = none := not_not.1 hold
    by_cases hstill : k.call.activity.Still
    · exact absurd ((Task.own_events_still hstill).trans hnone) hown
    cases ha : k.call.activity with
    | start q =>
      rw [ha] at hstill
      cases q with
      | complete commit =>
        refine absurd ?_ hown
        simp only [Task.events, ha, List.singleton_append, History.own, htxn, if_true]
      | _ => exact absurd trivial hstill
    | installing fs =>
      rw [ha] at hstill
      cases fs with
      | nil => exact absurd trivial hstill
      | cons f fs =>
        obtain ⟨-, hlt, hX, -⟩ := hw.grip hk ⟨fs, ha⟩
        have hp : (w.pool.page f).id = p := by
          by_contra hne
          refine hown ?_
          simp only [Task.events, ha]
          split
          · rw [List.singleton_append, History.own, if_neg fun hboth => hne hboth.2, hnone]
          · exact hnone
        refine ⟨hlocks.exclusive hw.locks (hp ▸ hX) ?_ ?_, (hw.onward hk).hasPage p (hp ▸ hw.housed f hlt)⟩
        · intro i hi
          rw [ha] at hi
          cases hi
        · intro commit r hr
          rw [ha] at hr
          cases hr
    | _ =>
      rw [ha] at hstill
      exact absurd trivial hstill

/-- A section that changes nothing heeds what it finds out, -/
theorem Steady.heeds_still (hw : w.Steady) (hk : w.tasks t = some k) (hstill : k.call.activity.Still)
    (hlive : (k.call.step w.pool).2.result? = none) :
    ActivityHeeds (k.call.step w.pool).1 w.history t (k.nextDraft (k.call.step w.pool).1)
      (k.call.step w.pool).2.activity := by
  obtain ⟨A, hfits⟩ := hw.fitting hk
  have hact := hfits.activity
  have hheeds := hw.heeds t k hk
  have hmoves := hw.onward hk
  have hown : ∀ p, History.own t p w.history ≠ none → w.pool.locks.modeOf p t = some .exclusive :=
    fun p hp => (hw.owned t p hp).1
  cases ha : k.call.activity with
  | start q =>
    rw [ha] at hstill hact
    have hq : ∀ commit, q ≠ .complete commit := by
      rintro commit rfl
      exact hstill
    simp only [Call.step, ha] at hlive ⊢
    rw [pool_start k.call w.pool hq hact.1 hw.sound]
    exact heeds_start hw.sound hact.1 hq hlive
  | locking p mode use =>
    rw [ha] at hheeds
    simp only [Call.step, ha] at hlive ⊢
    exact heeds_attempt hheeds hlive
  | sleeping ticket p mode use =>
    rw [ha] at hheeds
    simp only [Call.step, ha] at hlive ⊢
    split
    · rw [ha]
      exact hheeds
    · rename_i hawake
      rw [if_neg hawake] at hlive
      exact heeds_attempt hheeds hlive
  | fetching p use =>
    rw [ha] at hheeds hact
    obtain ⟨-, hheld, -⟩ := hact
    rcases hfetch : w.pool.fetch p with ⟨Q, e | f⟩
    · simp only [Call.step, ha, hfetch] at hlive
      cases hlive
    · have hQ := Pool.fetched_of_fetch hfetch
      obtain ⟨hlt, hid⟩ := hQ.filed hw.filed p f (Pool.resident_of_fetch hfetch)
      simp only [Call.step, ha, hfetch]
      refine ⟨UseInv.mono hheeds (fun _ _ hs => ?_) fun _ => rfl, hlt, hid, hQ.locks ▸ hheld⟩
      rwa [hQ.storage]
  | working p f use =>
    rw [ha] at hheeds
    simp only [Call.step, ha] at hlive ⊢
    exact heeds_useFrame hfits.txn hfits.installs ha hheeds.1 hown hlive
  | dropping i =>
    rw [ha] at hheeds
    have howned : ∀ p, History.own t p w.history ≠ none →
        (k.call.step w.pool).1.locks.modeOf p t = some .exclusive := fun p hp =>
      (hw.owned_step hk (by rwa [Task.own_events_still hstill])).1
    simp only [Call.step, ha, Pool.releasePage] at hlive howned ⊢
    split
    · rename_i heq
      rw [heq] at hlive
      cases hlive
    · rename_i heq
      rw [heq] at howned
      obtain rfl := (Prod.mk.inj heq).1
      exact heeds_tryNext hfits.txn hheeds.1 howned
  | counting i =>
    rw [ha] at hheeds
    simp only [Call.step, ha] at hlive ⊢
    split
    · rename_i heq
      rw [heq] at hlive
      cases hlive
    · exact heeds_tryNext hfits.txn hheeds hown
  | growing i =>
    rw [ha] at hheeds
    have hreg := hmoves.catalog _ _ hheeds
    simp only [Call.step, ha] at hlive hreg ⊢
    split
    · rename_i heq
      rw [heq] at hlive
      cases hlive
    · rename_i heq
      rw [heq] at hreg
      exact hreg
  | installing fs =>
    rw [ha] at hstill
    cases fs with
    | nil =>
      simp only [Call.step, ha] at hlive
      cases hlive
    | cons f fs => exact hstill.elim
  | releasing commit r =>
    rw [ha] at hheeds
    simp only [Call.step, ha]
    exact hheeds
  | ending commit r =>
    simp only [Call.step, ha] at hlive
    cases hlive
  | finished r =>
    rw [ha] at hheeds
    exact hheeds.elim

/-- and so does one that ends its transaction, which has no changes then, or installs a frame. -/
theorem Steady.heeds_change (hw : w.Steady) (hk : w.tasks t = some k) (hchanges : ¬k.call.activity.Still)
    (hlive : (k.call.step w.pool).2.result? = none) :
    ActivityHeeds (k.call.step w.pool).1
      (k.events w.pool (k.call.step w.pool).1 (k.call.step w.pool).2 ++ w.history) t
      (k.nextDraft (k.call.step w.pool).1) (k.call.step w.pool).2.activity := by
  cases ha : k.call.activity with
  | start q =>
    rw [ha] at hchanges
    cases q with
    | complete commit =>
      have hended : ∀ p, History.own t p
          (k.events w.pool (k.call.step w.pool).1 (k.call.step w.pool).2 ++ w.history) = none := fun p => by
        simp only [Task.events, ha, List.singleton_append, History.own, hw.txn hk, if_true]
      simp only [Call.step, ha] at hended ⊢
      exact hended
    | _ => exact absurd trivial hchanges
  | installing fs =>
    rw [ha] at hchanges
    cases fs with
    | nil => exact absurd trivial hchanges
    | cons f fs =>
      obtain ⟨hone, -⟩ := hw.grip hk ⟨fs, ha⟩
      obtain rfl : fs = [] := (List.cons.inj (Activity.installing.inj (ha.symm.trans hone))).2
      rcases hinst : w.pool.install k.call.txn f with ⟨Q, e | u⟩
      · simp only [Call.step, ha, hinst] at hlive
        cases hlive
      · simp only [Call.step, ha, hinst]
        trivial
  | _ =>
    rw [ha] at hchanges
    exact absurd trivial hchanges

/-- **A call goes on as it heeds what it has found out.** -/
theorem Steady.heeds_step (hw : w.Steady) (hk : w.tasks t = some k) {m : Task}
    (hm : k.after (k.call.step w.pool).1 (k.call.step w.pool).2 = some m) :
    ActivityHeeds (k.call.step w.pool).1
      (k.events w.pool (k.call.step w.pool).1 (k.call.step w.pool).2 ++ w.history) t m.draft
      m.call.activity := by
  have hlive := Task.call_live hm
  have hdraft : m.draft = k.nextDraft (k.call.step w.pool).1 := by
    unfold Task.after at hm
    split at hm
    · cases hm
    · rw [← Option.some.inj hm]
  rw [Task.call_of_after hm, hdraft]
  by_cases hstill : k.call.activity.Still
  · exact (hw.heeds_still hk hstill hlive).history fun p => Task.own_events_still hstill
  · exact hw.heeds_change hk hstill hlive

/-! ## Deeds -/

theorem Steady.fits_perform {d : Deed} (hw : w.Steady) (hd : d.Harmless w) :
    ∃ A, Accountable (w.perform d).pool A (w.perform d).tasks := by
  obtain ⟨A, hA⟩ := hw.fits
  exact ⟨_, Audited.Sound.next (a := ⟨w, A⟩) hA hd.allowed⟩

theorem Steady.runSection (hw : w.Steady) (hk : w.tasks t = some k)
    (hfits : ∃ A, Accountable (w.runSection t k).pool A (w.runSection t k).tasks) : (w.runSection t k).Steady := by
  refine hw.move (some t) hfits (hw.onward hk) (fun u hu => ?_) (fun u p hu hown => ?_) fun u m hu hm => ?_
  · have hut : u ≠ t := fun he => hu (by rw [he])
    exact ⟨Function.update_of_ne hut _ _, (hw.lockEffect hk).other hw.locks hut,
      fun p => Task.own_events_other (hw.txn hk ▸ hut)⟩
  · obtain rfl := Option.some.inj hu
    exact hw.owned_step hk hown
  · obtain rfl := Option.some.inj hu
    exact hw.heeds_step hk ((Function.update_self t _ w.tasks).symm.trans hm)

/-- The page that a client is about to overwrite is held exclusively. -/
theorem Steady.exclusive_of_rule (hw : w.Steady) (hk : w.tasks t = some k) {rule : Rule} {use : Use}
    (hrule : k.rule = some rule) (ha : k.call.activity = .fetching p use) :
    w.pool.locks.modeOf p t = some .exclusive := by
  obtain ⟨A, hfits⟩ := hw.fitting hk
  have hact := hfits.activity
  rw [ha, hrule] at hact
  exact hact.2.2 (.inr rfl)

theorem Steady.hasPage_of_fetch {Q : Pool Tables} (hw : w.Steady) (hfetch : w.pool.fetch p = (Q, .ok f)) :
    w.pool.storage.HasPage p := by
  have hQ := Pool.fetched_of_fetch hfetch
  obtain ⟨hlt, hid⟩ := hQ.filed hw.filed p f (Pool.resident_of_fetch hfetch)
  by_cases hold : f.index < w.pool.frames.size
  · rw [hQ.old f hold] at hid
    exact hid ▸ hw.housed f hold
  · exact (hQ.new f (Nat.not_lt.1 hold) hlt).2.1

theorem Steady.onward_editPage (hw : w.Steady) (rule : Rule) (hX : w.pool.locks.modeOf p t = some .exclusive) :
    w.pool.Onward (some t) (w.editPage t p rule).pool := by
  rcases hfetch : w.pool.fetch p with ⟨Q, e | f⟩
  · simp only [World.editPage, hfetch]
    exact (Pool.fetched_of_fetch hfetch).onward hw.sound
  · have hQ := Pool.fetched_of_fetch hfetch
    obtain ⟨-, hid⟩ := hQ.filed hw.filed p f (Pool.resident_of_fetch hfetch)
    simp only [World.editPage, hfetch]
    exact (hQ.onward hw.sound).trans hQ.locks
      (Pool.onward_setPage (hQ.storage ▸ hw.sound) (by rw [hid, hQ.locks, hX]) rfl)

theorem Steady.editPage (hw : w.Steady) (hk : w.tasks t = some k) {rule : Rule} {use : Use}
    (hrule : k.rule = some rule) (ha : k.call.activity = .fetching p use)
    (hfits : ∃ A, Accountable (w.editPage t p rule).pool A (w.editPage t p rule).tasks) :
    (w.editPage t p rule).Steady := by
  have hX := hw.exclusive_of_rule hk hrule ha
  have hmoves := hw.onward_editPage rule hX
  have htasks : (w.editPage t p rule).tasks = Function.update w.tasks t none := by
    rcases hfetch : w.pool.fetch p with ⟨Q, e | f⟩ <;> simp only [World.editPage, hfetch, World.setTask]
  have hlocks : (w.editPage t p rule).pool.locks = w.pool.locks := by
    rcases hfetch : w.pool.fetch p with ⟨Q, e | f⟩ <;> simp only [World.editPage, hfetch]
    · exact (Pool.fetched_of_fetch hfetch).locks
    · exact (Pool.fetched_of_fetch hfetch).locks
  have hown : ∀ u q, History.own u q (w.editPage t p rule).history = History.own u q w.history ∨
      (u = t ∧ q = p ∧ w.pool.storage.HasPage p) := by
    intro u q
    rcases hfetch : w.pool.fetch p with ⟨Q, e | f⟩
    · simp only [World.editPage, hfetch]
      exact .inl rfl
    · simp only [World.editPage, hfetch, History.own]
      by_cases hq : t = u ∧ p = q
      · exact .inr ⟨hq.1.symm, hq.2.symm, hw.hasPage_of_fetch hfetch⟩
      · exact .inl (if_neg hq)
  refine hw.move (some t) hfits hmoves (fun u hu => ?_) (fun u q hu howned => ?_) fun u m hu hm => ?_
  · have hut : u ≠ t := fun he => hu (by rw [he])
    exact ⟨by rw [htasks, Function.update_of_ne hut], fun q => by rw [hlocks],
      fun q => (hown u q).resolve_right fun hc => hut hc.1⟩
  · rw [hlocks]
    rcases hown u q with hsame | ⟨rfl, rfl, hp⟩
    · obtain ⟨hXq, hq⟩ := hw.owned u q (hsame ▸ howned)
      exact ⟨hXq, hmoves.hasPage q hq⟩
    · exact ⟨hX, hmoves.hasPage q hp⟩
  · obtain rfl := Option.some.inj hu
    rw [htasks, Function.update_self] at hm
    cases hm

/-- Nothing happens to the pool when a transaction begins a call. -/
theorem Steady.begin (hw : w.Steady) {r : Request} (hact : k.call.activity = .start r)
    (hfits : ∃ A, Accountable w.pool A (w.setTask t (some k)).tasks) : (w.setTask t (some k)).Steady := by
  refine hw.move (some t) hfits (Pool.onward_of_grown rfl (Tables.grown_refl hw.sound)) (fun u hu => ?_)
    (fun u q _ hown => hw.owned u q hown) fun u m hu hm => ?_
  · have hut : u ≠ t := fun he => hu (by rw [he])
    exact ⟨Function.update_of_ne hut _ _, fun q => rfl, fun q => rfl⟩
  · obtain rfl := Option.some.inj hu
    obtain rfl : k = m := Option.some.inj ((Function.update_self t _ w.tasks).symm.trans hm)
    rw [hact]
    trivial

/-- A deed of nobody that leaves the calls, the locks and the changes of all alone. -/
theorem Steady.aside {P : Pool Tables} {h : History} (hw : w.Steady)
    (hfits : ∃ A, Accountable P A w.tasks) (hm : w.pool.Onward none P) (hlocks : P.locks = w.pool.locks)
    (hown : ∀ u p, History.own u p h = History.own u p w.history) :
    Steady { pool := P, tasks := w.tasks, history := h } := by
  refine hw.move none hfits hm (fun u _ => ?_) (fun u p hu => ?_) fun u m hu => ?_
  · exact ⟨rfl, fun p => congrArg (·.modeOf p u) hlocks, hown u⟩
  · cases hu
  · cases hu

theorem Steady.onward_flushIn (hw : w.Steady) {ps : List PageId} (hps : ps.Nodup) :
    w.pool.Onward none (w.pool.flushIn ps).1 :=
  Pool.onward_flushIn hw.sound hw.filed (fun _ _ => hw.within) hps

theorem Steady.onward_flushHeld (hw : w.Steady) (t : TxnId) : w.pool.Onward none (w.pool.flushHeld t).1 :=
  Pool.onward_flushHeld hw.sound hw.filed (fun _ _ => hw.within) t

/-- **Every harmless deed keeps what holds.** -/
theorem Steady.perform (hw : w.Steady) {d : Deed} (hd : d.Harmless w) : (w.perform d).Steady := by
  have hfits := hw.fits_perform hd
  cases d with
  | act a =>
    cases a with
    | request t r =>
      exact hw.begin (World.installs_ofRequest hd.2).2.2 hfits
    | edit t p rule => exact hw.begin rfl hfits
    | advance t =>
      have hadv : w.perform (.act (.advance t)) = w.advance t := rfl
      rcases w.advance_cases t with ⟨-, heq⟩ | ⟨k, rule, p, use, hk, hrule, ha, heq⟩ | ⟨k, hk, -, heq⟩
      · rw [hadv, heq]
        exact hw
      · rw [hadv, heq] at hfits ⊢
        exact hw.editPage hk hrule ha hfits
      · rw [hadv, heq] at hfits ⊢
        exact hw.runSection hk hfits
    | register file =>
      exact hw.aside hfits (Pool.onward_of_grown rfl (Tables.grown_register hw.sound hd.1)) rfl fun _ _ => rfl
  | flushPage p =>
    exact hw.aside hfits (hw.onward_flushIn (List.nodup_singleton p)) (Pool.flushIn_tidied [p] w.pool).locks
      fun _ _ => rfl
  | flushAll =>
    exact hw.aside hfits (hw.onward_flushIn w.pool.nodup_residentPages) (Pool.flushIn_tidied _ w.pool).locks
      fun _ _ => rfl
  | flushHeld t =>
    exact hw.aside hfits (hw.onward_flushHeld t) (Pool.flushHeld_tidied hw.filed t).1.locks
      fun _ _ => rfl
  | discard p => exact hd.elim
  | disturb disk => exact hd.elim

/-- No harmless deed loses a page. -/
theorem Steady.hasPage_perform (hw : w.Steady) {d : Deed} (hd : d.Harmless w) (hp : w.pool.storage.HasPage p) :
    (w.perform d).pool.storage.HasPage p := by
  cases d with
  | act a =>
    cases a with
    | request t r => exact hp
    | edit t q rule => exact hp
    | advance t =>
      show (w.advance t).pool.storage.HasPage p
      rcases w.advance_cases t with ⟨-, heq⟩ | ⟨k, rule, q, use, hk, hrule, ha, heq⟩ | ⟨k, hk, -, heq⟩
      · rwa [heq]
      · rw [heq]
        exact (hw.onward_editPage rule (hw.exclusive_of_rule hk hrule ha)).hasPage p hp
      · rw [heq]
        exact (hw.onward hk).hasPage p hp
    | register file => exact (Tables.grown_register hw.sound hd.1).hasPage p hp
  | flushPage q => exact (hw.onward_flushIn (List.nodup_singleton q)).hasPage p hp
  | flushAll => exact (hw.onward_flushIn w.pool.nodup_residentPages).hasPage p hp
  | flushHeld t => exact (hw.onward_flushHeld t).hasPage p hp
  | discard q => exact hd.elim
  | disturb disk => exact hd.elim

theorem steady_start {capacity : Nat} {draws : Draws} {P : Pool Tables} {d : Tables}
    (hP : Pool.create capacity draws d = .ok P) (hd : d.Sound) : (start P).Steady := by
  have hfits : Accountable P (fun _ => {}) (fun _ => none) :=
    Audited.Reachable.accountable hP hd.heapsOnly (.start (P := P))
  obtain ⟨-, rfl⟩ := Pool.create_ok hP
  exact ⟨⟨_, hfits⟩, hd, fun f hf => absurd hf (Nat.not_lt_zero _), fun t p hown => absurd rfl hown,
    fun t k hk => by cases hk⟩

/-- **What holds goes on to hold in every run of harmless deeds.** -/
theorem Steady.comesBy {kind : World → Deed → Prop} (hkind : ∀ v d, kind v d → d.Harmless v) (hw : w.Steady)
    (h : w.ComesBy kind w') : w'.Steady := by
  induction h with
  | refl => exact hw
  | step _ hd ih => exact ih.perform (hkind _ _ hd)

end Steady

end World

end PageEngine
