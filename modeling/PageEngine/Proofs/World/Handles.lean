import PageEngine.Proofs.World.Extension

/-!
# `Proofs/World/Handles.lean` — changing a page through a frame from before

A client that was handed a page for writing keeps the frame, and may write into it later, after other
calls. In the meantime the page can have left the cache, because it was clean: then the frame is an
image of the page that nobody looks at any more. So what becomes of the change depends on the cache:

> **if the frame is still the cached one of its page, its bytes are in the store after the commit; if it
> is not, the page is left as if the change had not been made**, and the commit succeeds all the same.

`World.Leads` are the runs in which clients write into frames like this, next to the calls.
-/

set_option autoImplicit false

namespace PageEngine

open Std

/-! ## Frames out of the cache -/

section Keeping

variable {origin : PageId → PageData} {ch : FrameId → Prop} {t : TxnId} {P : Pool Tables} {h : History}
  {p : PageId} {f : FrameId}

/-- **A change of a frame that has left the cache shows to nobody.** -/
theorem PoolInv.keeps_stale (hi : PoolInv origin ch P h)
    (hX : P.locks.modeOf (P.page f).id t = some .exclusive)
    (hstale : P.resident[(P.page f).id]? ≠ some f) (x : Page) :
    Keeps origin t ch P h (P.setPage f x) h := by
  have hother : ∀ g, g ≠ f → (P.setPage f x).page g = P.page g :=
    fun g hg => Pool.page_setPage_of_ne _ _ hg
  have hsize := Pool.size_setPage P f x
  -- A frame is cached under the name of its own page.
  have hne : ∀ (q : PageId) (g : FrameId), P.resident[q]? = some g → g ≠ f := by
    intro q g hg hgf
    subst hgf
    rw [(hi.cached q g hg).image.id_eq] at hstale
    exact hstale hg
  refine ⟨⟨hi.sound, hi.locks, hi.stored, ?_, ?_⟩,
    fun u hu => .of_page hu (by rw [hX]; rfl) rfl rfl (Nat.le_of_eq hsize.symm) ?_ (fun _ _ => rfl)
      fun _ => rfl⟩
  · intro q g hg
    exact (hi.cached q g hg).congr rfl rfl (hother g (hne q g hg)) (Nat.le_of_eq hsize.symm)
  · intro s q d hd
    obtain ⟨g, hg, hdirty⟩ := hi.owned s q d hd
    exact ⟨g, hg, by rw [hother g (hne q g hg)]; exact hdirty⟩
  · intro g _
    by_cases hgf : g = f
    · exact .inr ⟨by rw [hgf], hX⟩
    · exact .inl (hother g hgf)

end Keeping

namespace World

variable {origin : PageId → PageData} {w w' : World} {t : TxnId} {f : FrameId} {p : PageId}

/-! ## Writing into a frame -/

/-- A client of `t` overwrites a frame and marks it as dirtied by `t`. It is a change of the page if the
frame is the cached one of the page. -/
def editFrame (w : World) (t : TxnId) (f : FrameId) (d : PageData) : World :=
  let page := w.pool.page f
  { w with
    pool := w.pool.setPage f ((page.withData d).markDirty t)
    history := if w.pool.resident[page.id]? = some f then .edited t page.id (fun _ => d) d :: w.history
      else w.history }

/-- The worlds to which a world leads by actions and by clients that write into frames. A client does so
while its transaction has no call in flight and holds the page exclusively. -/
inductive Leads (w : World) : World → Prop
  | refl : Leads w w
  | act {v : World} {a : Action} :
      Leads w v → a.Enabled v → a.ThroughPool → Leads w (v.act a)
  | edit {v : World} {t : TxnId} {f : FrameId} (d : PageData) :
      Leads w v → v.tasks t = none → f.index < v.pool.frames.size →
      v.pool.locks.modeOf (v.pool.page f).id t = some .exclusive → Leads w (v.editFrame t f d)

theorem Inv.editFrame (hw : w.Inv origin) (hidle : w.tasks t = none)
    (hX : w.pool.locks.modeOf (w.pool.page f).id t = some .exclusive) (d : PageData) :
    (w.editFrame t f d).Inv origin := by
  have hpool := hw.pool_of_idle hidle
  have htasks : Function.update w.tasks t none = w.tasks := by
    rw [← hidle, Function.update_eq_self]
  by_cases hres : w.pool.resident[(w.pool.page f).id]? = some f
  · have hserved := hw.serve (hpool.keeps_overwrite hX hres (fun _ => d) d).ends
    rw [htasks] at hserved
    simpa only [World.editFrame, if_pos hres] using hserved
  · have hserved := hw.serve
      (hpool.keeps_stale hX hres (((w.pool.page f).withData d).markDirty t)).ends
    rw [htasks] at hserved
    simpa only [World.editFrame, if_neg hres] using hserved

theorem extends_editFrame (w : World) (t : TxnId) (f : FrameId) (d : PageData) :
    w.Extends (w.editFrame t f d) := by
  by_cases hres : w.pool.resident[(w.pool.page f).id]? = some f
  · refine ⟨fun _ hp => hp, [_], if_pos hres, ?_, ?_⟩
    · intro p _ e he
      obtain rfl := List.mem_singleton.1 he
      exact id
    · intro u p x he
      simp at he
  · exact .quiet (fun _ hp => hp) (if_neg hres)

/-- **The invariant holds however clients write into the frames of the pages that they hold.** -/
theorem Leads.inv (h : Leads w w') (hw : w.Inv origin) : w'.Inv origin ∧ w.Extends w' := by
  induction h with
  | refl => exact ⟨hw, .quiet (fun _ hp => hp) rfl⟩
  | act _ ha hkind ih => exact ⟨ih.1.act ha hkind, ih.2.trans (ih.1.extends_act ha)⟩
  | edit d _ hidle _ hX ih =>
    exact ⟨ih.1.editFrame hidle hX d, ih.2.trans (extends_editFrame _ _ _ d)⟩

/-! ## Getting a page -/

variable {capacity : Nat} {draws : Draws} {d : Tables} {P : Pool Tables}

theorem Leads.serve {v : World} (hv : Leads w v) {a : Action} (ha : a.Enabled v)
    (hkind : a.ThroughPool) (t : TxnId) (n : Nat) :
    Leads w (v.run (a :: List.replicate n (.advance t))) := by
  have hfirst := hv.act ha hkind
  show Leads w ((v.act a).run (List.replicate n (.advance t)))
  generalize v.act a = u at hfirst
  induction n generalizing u with
  | zero => exact hfirst
  | succ n ih => exact ih _ (hfirst.act (a := .advance t) trivial trivial)

/-- Three sections of a call that gets a page, and the call works on the frame that it delivers next. -/
theorem get_hands {a : Access} {L : LockTable}
    (hgrant : w.pool.locks.attempt p t a.mode = (L, .granted))
    (hfetch : (w.pool.withLocks L).fetch p = (P, .ok f)) :
    ((w.run (.request t (.get p a) :: List.replicate 3 (.advance t))).tasks t).map
      (·.call.activity) = some (.working p f .deliver) := by
  simp [run, act, setTask, advance, runSection, Call.ofRequest, Call.step, Call.start, Call.goOn,
    Call.attemptLock, Task.after, Call.result?, hgrant, hfetch]

/-- The first call at a new pool gets the page that it asks for, in the first frame. -/
theorem get_first (hP : Pool.create capacity draws d = .ok P) (hd : d.Sound)
    (hp : p.pageNo < d.pages p.table) (hmax : d.pages p.table ≤ maxPageNo) (t : TxnId) (a : Access) :
    (((start P).run (.request t (.get p a) :: List.replicate 3 (.advance t))).tasks t).map
        (·.call.activity) = some (.working p ⟨0⟩ .deliver) ∧
    ∃ Q : Pool Tables,
      (start P).run (.request t (.get p a) :: List.replicate 4 (.advance t)) =
        ⟨Q, fun _ => none, [.got t p (d.contents p)]⟩ ∧
      Q.capacity = capacity ∧ Q.storage = d ∧ Q.locks = (LockTable.empty.attempt p t a.mode).1 ∧
      Q.resident = (∅ : ExtTreeMap PageId FrameId).insert p ⟨0⟩ ∧
      Q.frames = #[Page.ofData p (d.contents p)] := by
  obtain ⟨hroom, rfl⟩ := Pool.create_ok hP
  have hgrant := LockTable.attempt_of_unheld (L := LockTable.empty) (p := p)
    (fun u => LockTable.modeOf_empty p u) t a.mode
  obtain ⟨Q, hfetch, hcap, hs, hl, hres, hframes⟩ : ∃ Q,
      (({ capacity, storage := d, draws } : Pool Tables).withLocks
        (LockTable.empty.attempt p t a.mode).1).fetch p = (Q, .ok ⟨0⟩) ∧
      Q.capacity = capacity ∧ Q.storage = d ∧ Q.locks = (LockTable.empty.attempt p t a.mode).1 ∧
      Q.resident = (∅ : ExtTreeMap PageId FrameId).insert p ⟨0⟩ ∧
      Q.frames = #[Page.ofData p (d.contents p)] :=
    ⟨_, Pool.fetch_of_room hd (by simp [Pool.withLocks]) hroom hp hmax, rfl, rfl, rfl, rfl, rfl⟩
  have hget := get_alone (w := start { capacity, storage := d, draws }) rfl hgrant hfetch
  have hpage : (Q.page ⟨0⟩).data = d.contents p := by simp [Pool.page, hframes, Page.ofData]
  rw [hpage] at hget
  exact ⟨get_hands hgrant hfetch, Q, hget, hcap, hs, hl, hres, hframes⟩

/-! ## What the commit stores -/

/-- **What becomes of a change through a frame.** A transaction that holds a page that it was handed
overwrites a frame of the page with `x`, nobody changes the page after that, and the transaction
commits. Then the store holds `x` if the frame was the cached one of the page when it was overwritten;
and otherwise it holds what the transaction saw in the page before. -/
theorem contents_of_editFrame (hP : Pool.create capacity draws d = .ok P) (hd : d.Sound)
    (hw : Leads (start P) w) (hidle : w.tasks t = none) (hid : (w.pool.page f).id = p)
    (hX : w.pool.locks.modeOf p t = some .exclusive) {y : PageData} (hgot : .got t p y ∈ w.history)
    (x : PageData) (hrun : Leads (w.editFrame t f x) w')
    {after before : History}
    (hist : w'.history = after ++ .ended t true :: before ++ (w.editFrame t f x).history)
    (hbefore : ∀ c, .ended t c ∉ before) (hquiet : ∀ e ∈ after ++ before, ¬e.Changes p) :
    (w.pool.resident[p]? = some f → w'.pool.storage.contents p = x) ∧
    (w.pool.resident[p]? ≠ some f →
      w'.pool.storage.contents p = History.view d.contents t p w.history) := by
  obtain ⟨hinv, -, later, hstart, -, hpages⟩ := hw.inv (inv_start hP hd)
  have hpage : w.pool.storage.HasPage p := by
    refine hpages t p y ?_
    rw [hstart] at hgot
    simpa [start] using hgot
  subst hid
  have hedited := hinv.editFrame hidle hX x
  obtain ⟨hinv', -, later', hist', hmakes, -⟩ := hrun.inv hedited
  have hlater : later' = after ++ .ended t true :: before :=
    List.append_cancel_right (hist'.symm.trans hist)
  have hq : ∀ e ∈ after ++ .ended t true :: before,
      ¬e.Changes (w.pool.page f).id ∧ ¬e.Makes (w.pool.page f).id := by
    intro e he
    refine ⟨?_, hmakes _ hpage e (hlater ▸ he)⟩
    rcases List.mem_append.1 he with he' | he'
    · exact hquiet e (List.mem_append_left _ he')
    · rcases List.mem_cons.1 he' with rfl | he'
      · exact id
      · exact hquiet e (List.mem_append_right _ he')
  -- Nobody else has a change of the page.
  have hothers : ∀ u, u ≠ t →
      History.own u (w.pool.page f).id (w.editFrame t f x).history = none := by
    intro u hu
    have hheld : (w.pool.locks.modeOf (w.pool.page f).id t).isSome := by rw [hX]; rfl
    exact hedited.pool.own_none_of_held hheld hu
  have hview : w'.pool.storage.contents (w.pool.page f).id =
      History.view d.contents t (w.pool.page f).id (w.editFrame t f x).history := by
    rw [hinv'.pool.stored, hist, History.committed_of_ended hq hbefore hothers]
  rw [hview]
  constructor
  · intro hres
    simp [editFrame, hres, History.view, History.own]
  · intro hres
    simp only [editFrame, if_neg hres]

/-- Transaction 1 counts the page of the small table up through the frame that it was handed, which is
still the cached one, and commits. -/
theorem contents_of_editFrame_small :
    ∃ w w' : World, Leads (start smallPool) w ∧ w.pool.resident[(⟨⟨1⟩, 0⟩ : PageId)]? = some ⟨0⟩ ∧
      Leads (w.editFrame ⟨1⟩ ⟨0⟩ counted) w' ∧
      w'.history = .ended ⟨1⟩ true :: (w.editFrame ⟨1⟩ ⟨0⟩ counted).history ∧
      w'.pool.storage.contents ⟨⟨1⟩, 0⟩ = counted := by
  obtain ⟨-, Q, hfirst, -, -, hl, hres, hframes⟩ := get_first (p := ⟨⟨1⟩, 0⟩) create_smallPool
    smallTables_sound (by rw [smallTables_pages]; decide) (by rw [smallTables_pages]; decide) ⟨1⟩ .write
  have hw := (Leads.refl (w := start smallPool)).serve (a := .request ⟨1⟩ (.get ⟨⟨1⟩, 0⟩ .write)) rfl
    trivial ⟨1⟩ 4
  rw [hfirst] at hw
  have hcached : Q.resident[(⟨⟨1⟩, 0⟩ : PageId)]? = some ⟨0⟩ := by simp [hres]
  have hX : Q.locks.modeOf ⟨⟨1⟩, 0⟩ ⟨1⟩ = some .exclusive := by rw [hl]; cbv
  have hrun := (Leads.refl (w := World.editFrame ⟨Q, fun _ => none,
    [.got ⟨1⟩ ⟨⟨1⟩, 0⟩ (smallTables.contents ⟨⟨1⟩, 0⟩)]⟩ ⟨1⟩ ⟨0⟩ counted)).serve
    (a := .request ⟨1⟩ (.complete true)) rfl trivial ⟨1⟩ 3
  rw [complete_alone rfl] at hrun
  refine ⟨_, _, hw, hcached, hrun, rfl, ?_⟩
  exact (contents_of_editFrame create_smallPool smallTables_sound hw rfl
    (by simp [Pool.page, hframes, Page.ofData]) hX (List.mem_singleton.2 rfl) counted hrun
    (List.nil_append _).symm (fun c (hc : _ ∈ []) => absurd hc List.not_mem_nil)
    (fun e (he : e ∈ [] ++ []) => absurd he List.not_mem_nil)).1 hcached

/-! ## A page that has left the cache -/

/-- The world after `t` has taken `p` for writing and `q` for reading at a new pool. -/
def getTwo (P : Pool Tables) (p q : PageId) (t : TxnId) : World :=
  ((start P).run (.request t (.get p .write) :: List.replicate 4 (.advance t))).run
    (.request t (.get q .read) :: List.replicate 4 (.advance t))

/-- The world after `t` has written into a frame and committed. -/
def editAndCommit (w : World) (t : TxnId) (f : FrameId) (x : PageData) : World :=
  (w.editFrame t f x).run (.request t (.complete true) :: List.replicate 3 (.advance t))

/-- **A change that is lost.** A pool that has room for one page hands `p` to `t` for writing, in the
first frame, and then `q`, which takes the place of `p`. When `t` overwrites that frame after all and
commits, the commit succeeds, and the store holds what `p` held before. -/
theorem edit_of_evicted (hP : Pool.create 1 draws d = .ok P) (hd : d.Sound) {q : PageId} (hne : p ≠ q)
    (hp : p.pageNo < d.pages p.table) (hpmax : d.pages p.table ≤ maxPageNo)
    (hq : q.pageNo < d.pages q.table) (hqmax : d.pages q.table ≤ maxPageNo) (t : TxnId)
    (x : PageData) :
    (((start P).run (.request t (.get p .write) :: List.replicate 3 (.advance t))).tasks t).map
        (·.call.activity) = some (.working p ⟨0⟩ .deliver) ∧
    Leads (start P) (getTwo P p q t) ∧ (getTwo P p q t).tasks t = none ∧
    (getTwo P p q t).pool.frames.size = 2 ∧
    ((getTwo P p q t).pool.page ⟨0⟩).id = p ∧
    (getTwo P p q t).pool.locks.modeOf p t = some .exclusive ∧
    (((getTwo P p q t).editFrame t ⟨0⟩ x).pool.complete t true).2 = .ok () ∧
    Leads ((getTwo P p q t).editFrame t ⟨0⟩ x) ((getTwo P p q t).editAndCommit t ⟨0⟩ x) ∧
    ((getTwo P p q t).editAndCommit t ⟨0⟩ x).tasks t = none ∧
    ((getTwo P p q t).editAndCommit t ⟨0⟩ x).history =
      .ended t true :: ((getTwo P p q t).editFrame t ⟨0⟩ x).history ∧
    ((getTwo P p q t).editAndCommit t ⟨0⟩ x).pool.storage.contents p = d.contents p := by
  obtain ⟨hhands, Q, hfirst, hcap, hs, hl, hres, hframes⟩ := get_first hP hd hp hpmax t .write
  have hw₁ := (Leads.refl (w := start P)).serve (a := .request t (.get p .write)) rfl trivial t 4
  rw [hfirst] at hw₁
  have hmodes : ∀ r u, Q.locks.modeOf r u = if r = p ∧ u = t then some .exclusive else none := by
    intro r u
    rw [hl, LockTable.modeOf_attempt, LockTable.modeOf_empty, LockTable.modeOf_empty,
      LockTable.attempt_of_unheld (fun u => LockTable.modeOf_empty p u)]
    simp [Access.mode, Mode.raised]
  have hfree : ∀ u, Q.locks.modeOf q u = none := fun u => by
    rw [hmodes, if_neg fun h => hne h.1.symm]
  have hgrant := LockTable.attempt_of_unheld hfree t .shared
  -- The second page takes the place of the first one.
  obtain ⟨R, hfetch, hRs, hRl, hRres, hRframes⟩ : ∃ R,
      (Q.withLocks (Q.locks.attempt q t .shared).1).fetch q = (R, .ok ⟨1⟩) ∧ R.storage = d ∧
      R.locks = (Q.locks.attempt q t .shared).1 ∧ R.resident[p]? = none ∧
      R.frames = #[Page.ofData p (d.contents p), Page.ofData q (d.contents q)] := by
    obtain ⟨draws', counters, hfetch⟩ := Pool.fetch_of_sole
      (P := Q.withLocks (Q.locks.attempt q t .shared).1) (p := p) (q := q) (hs ▸ hd) hcap hres
      (by simp [Pool.page, Pool.withLocks, hframes, Page.ofData]) hne
      (by rw [← hs] at hq; exact hq) (by rw [← hs] at hqmax; exact hqmax)
    have hnext : (Q.withLocks (Q.locks.attempt q t .shared).1).nextFrame = ⟨1⟩ := by
      simp [Pool.nextFrame, Pool.withLocks, hframes]
    rw [hnext] at hfetch
    refine ⟨_, hfetch, hs, rfl, ?_, ?_⟩
    · simp [Ne.symm hne]
    · simp [Pool.withLocks, hframes, hs]
  have hget := get_alone (w := ⟨Q, fun _ => none, [.got t p (d.contents p)]⟩) (t := t) (a := .read)
    rfl hgrant hfetch
  have hw₂ := hw₁.serve (a := .request t (.get q .read)) rfl trivial t 4
  have hdata : (R.page ⟨1⟩).data = d.contents q := by simp [Pool.page, hRframes, Page.ofData]
  rw [hdata] at hget
  have htwo : getTwo P p q t =
      ⟨R, fun _ => none, [.got t q (d.contents q), .got t p (d.contents p)]⟩ := by
    rw [getTwo, hfirst, hget]
  rw [hget] at hw₂
  have hid : (R.page ⟨0⟩).id = p := by simp [Pool.page, hRframes, Page.ofData]
  have hX : R.locks.modeOf p t = some .exclusive := by
    rw [hRl, LockTable.modeOf_attempt, if_neg fun h => hne h.2.1, hmodes, if_pos ⟨rfl, rfl⟩]
  have hinv := (hw₂.inv (inv_start hP hd)).1
  have hedited := hinv.editFrame (f := ⟨0⟩) (t := t) rfl (by rw [hid]; exact hX) x
  have hrun := (Leads.refl (w := World.editFrame ⟨R, fun _ => none, [.got t q (d.contents q),
    .got t p (d.contents p)]⟩ t ⟨0⟩ x)).serve (a := .request t (.complete true)) rfl trivial t 3
  have hcommit := complete_alone (w := World.editFrame ⟨R, fun _ => none, [.got t q (d.contents q),
    .got t p (d.contents p)]⟩ t ⟨0⟩ x) (t := t) rfl true
  have hstored := (hrun.inv hedited).1.pool.stored p
  rw [htwo, editAndCommit]
  rw [hcommit] at hrun hstored ⊢
  refine ⟨hhands, hw₂, rfl, by simp [hRframes], hid, hX, ?_, hrun, rfl, rfl, ?_⟩
  · exact Pool.complete_ok hedited.pool.sound hedited.pool.filed
      (fun r g hg => (hedited.pool.cached r g hg).image.hasPage) hedited.pool.locks t true
  · rw [hstored]
    simp [World.editFrame, hid, hRres, History.committed, History.own]

/-- One table of two pages of zeros. -/
def twoPageTables : Tables :=
  Tables.register
    { disk := Disk.put {} "t" { file := .memory { bytes := Bytes.zeros (2 * pageSize) } } }
    (.heap smallFile)

/-- A pool over this table that has room for one of its pages. -/
def twoPagePool : Pool Tables := { capacity := 1, storage := twoPageTables, draws := Draws.ofSeed 7 }

theorem twoPageTables_sound : twoPageTables.Sound := by
  refine Tables.Sound.register ⟨?_, ?_, ?_⟩ ⟨?_, ?_, ?_⟩
  all_goals simp [smallFile, Disk.Faultless, Disk.file_put]

theorem twoPageTables_pages : twoPageTables.pages ⟨1⟩ = 2 := by
  simp [Tables.pages, twoPageTables, Tables.bytesOf_register, smallFile, Disk.bytes, Disk.file_put,
    File.bytes, pageSize]

theorem countUp_ne (x : PageData) : countUp [x] ≠ x := by
  intro h
  have hbyte : (countUp [x]).byte 0 = x.byte 0 + 1 := by
    simp [countUp, PageData.byte_setByte, pageSize]
  rw [h] at hbyte
  simp at hbyte

/-- The first page of the two is taken for writing, the second one for reading, the first one is
counted up through the frame from before, and the commit leaves it as it was. -/
theorem counted_page_lost :
    (((start twoPagePool).run (.request ⟨1⟩ (.get ⟨⟨1⟩, 0⟩ .write) ::
        List.replicate 3 (.advance ⟨1⟩))).tasks ⟨1⟩).map (·.call.activity) =
      some (.working ⟨⟨1⟩, 0⟩ ⟨0⟩ .deliver) ∧
    ∃ w w' : World, ∃ x : PageData, w = getTwo twoPagePool ⟨⟨1⟩, 0⟩ ⟨⟨1⟩, 1⟩ ⟨1⟩ ∧
      Leads (start twoPagePool) w ∧ (w.pool.page ⟨0⟩).id = ⟨⟨1⟩, 0⟩ ∧
      w.pool.locks.modeOf ⟨⟨1⟩, 0⟩ ⟨1⟩ = some .exclusive ∧
      ((w.editFrame ⟨1⟩ ⟨0⟩ x).pool.complete ⟨1⟩ true).2 = .ok () ∧
      Leads (w.editFrame ⟨1⟩ ⟨0⟩ x) w' ∧ w'.tasks ⟨1⟩ = none ∧
      w'.history = .ended ⟨1⟩ true :: (w.editFrame ⟨1⟩ ⟨0⟩ x).history ∧
      w'.pool.storage.contents ⟨⟨1⟩, 0⟩ ≠ x := by
  have hP : Pool.create 1 (Draws.ofSeed 7) twoPageTables = .ok twoPagePool := rfl
  have hlt : ∀ n, n < 2 → n < twoPageTables.pages ⟨1⟩ := fun n hn => by
    rw [twoPageTables_pages]
    exact hn
  have hmax : twoPageTables.pages ⟨1⟩ ≤ maxPageNo := by
    rw [twoPageTables_pages]
    decide
  obtain ⟨hhands, hw, -, -, hid, hX, hok, hrun, hidle, hist, hstored⟩ :=
    edit_of_evicted hP twoPageTables_sound (p := ⟨⟨1⟩, 0⟩) (q := ⟨⟨1⟩, 1⟩) (by decide)
      (hlt 0 (by decide)) hmax (hlt 1 (by decide)) hmax ⟨1⟩
      (countUp [twoPageTables.contents ⟨⟨1⟩, 0⟩])
  exact ⟨hhands, _, _, _, rfl, hw, hid, hX, hok, hrun, hidle, hist, by
    rw [hstored]; exact (countUp_ne _).symm⟩

end World

end PageEngine
