import PageEngine.Proofs.World.Steady

/-!
# `Proofs/World/PageSteps.lean` — what a deed does to one page

A page has its bytes in the store, its cached frame if it has one, frames that calls work with although they
were evicted, and the changes that transactions have made to it. A deed leaves all this alone, up to evicting
a clean frame or reading a new one from the store, or it does one of five things:

> **a page is written out, drafted, changed, settled or undone, or it rests** (`Steady.pageStep`).

Only harmless deeds are looked at (`Deed.Harmless`), which may write pages out at any time.
-/

set_option autoImplicit false

namespace PageEngine

open Std

/-- A client has this page written out. -/
def Deed.WritesOut (p : PageId) : Deed → Prop
  | flushPage q => q = p
  | flushAll => True
  | _ => False

namespace World

/-! ## The frames of a page -/

/-- The frame is an image of the page, and it is cached or a call works with it. -/
structure Uses (w : World) (p : PageId) (f : FrameId) : Prop where
  index_lt : f.index < w.pool.frames.size
  id_eq : (w.pool.page f).id = p
  live : w.pool.resident[p]? = some f ∨ ∃ u k, w.tasks u = some k ∧ f ∈ k.call.activity.images

/-- The frame was written to and is about to be installed. -/
def Pending (w : World) (f : FrameId) : Prop := ∃ t, w.ChangedBy t f

def PendingAt (w : World) (p : PageId) : Prop := ∃ f, (w.pool.page f).id = p ∧ w.Pending f

/-- Somebody has changed the page, or is about to install a change of it. -/
def Changing (w : World) (p : PageId) : Prop := (∃ u, History.own u p w.history ≠ none) ∨ w.PendingAt p

/-- The deed is an install of the page by `t` that finds no room for it. -/
def Loses (t : TxnId) (p : PageId) (w : World) (d : Deed) : Prop :=
  d = .act (.advance t) ∧ ∃ k f, w.tasks t = some k ∧ k.call.activity.Changes f ∧ (w.pool.page f).id = p ∧
    ∃ e, (w.pool.install t f).2 = .error e

/-- A frame of `p` in use that was in use before and is as it was. -/
structure Unmoved (w w' : World) (p : PageId) (f : FrameId) : Prop where
  uses : w.Uses p f
  page : w'.pool.page f = w.pool.page f
  pending : w.Pending f → w'.Pending f

/-- A frame that was read from the store for `p`, of which nobody had one in the cache or to install. -/
structure ReadIn (w w' : World) (p : PageId) (f : FrameId) : Prop where
  uncached : w.pool.resident[p]? = none
  resident : w'.pool.resident[p]? = some f
  page : w'.pool.page f = Page.ofData p (w.pool.storage.contents p)
  alone : ¬w.PendingAt p

/-! ## What can happen to a page -/

/-- Nobody changes the page or its frames, but it may be evicted or read in. -/
structure Rests (w : World) (d : Deed) (p : PageId) (w' : World) : Prop where
  stored : w.pool.storage.HasPage p → w'.pool.storage.contents p = w.pool.storage.contents p
  own : ∀ u, History.own u p w'.history = History.own u p w.history
  frames : ∀ f, w'.Uses p f → Unmoved w w' p f ∨ ReadIn w w' p f
  cache : w'.pool.resident[p]? = w.pool.resident[p]? ∨
    (w'.pool.resident[p]? = none ∧ ∃ f, w.pool.resident[p]? = some f ∧ (w.pool.page f).dirty = none) ∨
    ∃ f, ReadIn w w' p f
  pending : w.PendingAt p → w'.PendingAt p ∨ ∃ t, w.Loses t p d

/-- The dirty frame `f` is written to the store and cleaned, by order of a client. -/
structure WroteOut (w : World) (d : Deed) (p : PageId) (f : FrameId) (w' : World) : Prop where
  called : d.WritesOut p
  dirty : w.pool.dirtyImage p = some (w.pool.page f)
  resident : w'.pool.resident[p]? = some f
  cached : w.pool.resident[p]? = some f
  page : w'.pool.page f = (w.pool.page f).markClean
  stored : w'.pool.storage.contents p = (w.pool.page f).data
  own : ∀ u, History.own u p w'.history = History.own u p w.history
  frames : ∀ g, w'.Uses p g → g = f ∨ Unmoved w w' p g
  pending : ∀ g, w.Pending g → w'.Pending g

/-- A transaction writes to the frame `f`, which it goes on to install. -/
structure Drafts (w : World) (p : PageId) (f : FrameId) (w' : World) : Prop where
  uses : w.Uses p f
  page : ∃ d, w'.pool.page f = (w.pool.page f).withData d
  pending : w'.Pending f
  sole : w.pool.resident[p]? = none ∨ w.pool.resident[p]? = some f
  resident : w'.pool.resident[p]? = w.pool.resident[p]?
  stored : w'.pool.storage.contents p = w.pool.storage.contents p
  own : ∀ u, History.own u p w'.history = History.own u p w.history
  frames : ∀ g, w'.Uses p g → g = f ∨ Unmoved w w' p g

/-- The frame `f`, which holds a change of `t`, is marked and cached. -/
structure Changed (w : World) (p : PageId) (t : TxnId) (f : FrameId) (w' : World) : Prop where
  resident : w'.pool.resident[p]? = some f
  dirty : (w'.pool.page f).dirty = some t
  own : History.own t p w'.history = some (w'.pool.page f).data
  others : ∀ u, u ≠ t → History.own u p w.history = none ∧ History.own u p w'.history = none
  before : (w.Uses p f ∧ (w'.pool.page f).beforeImage = (w.pool.page f).beforeImage) ∨
    (w'.pool.page f).beforeImage = w.pool.storage.contents p
  stored : w'.pool.storage.contents p = w.pool.storage.contents p
  frames : ∀ g, w'.Uses p g → g = f

/-- The cached frame is written to the store if it is dirty, and captured, as by a commit of `t`. -/
structure Settled (w : World) (d : Deed) (p : PageId) (t : TxnId) (w' : World) : Prop where
  resident : w'.pool.resident[p]? = w.pool.resident[p]?
  page : ∀ f, w.pool.resident[p]? = some f → w'.pool.page f = (w.pool.page f).markClean.capture
  stored : ∀ f, w.pool.resident[p]? = some f → (w.pool.page f).dirty ≠ none →
    w'.pool.storage.contents p = (w.pool.page f).data
  kept : (∀ f, w.pool.resident[p]? = some f → (w.pool.page f).dirty = none) →
    w'.pool.storage.contents p = w.pool.storage.contents p
  own : ∀ u, History.own u p w'.history ≠ none → History.own u p w'.history = History.own u p w.history
  frames : ∀ g, w'.Uses p g → w.pool.resident[p]? = some g ∨
    (Unmoved w w' p g ∧ ∀ u, History.own u p w'.history = History.own u p w.history)
  pending : ∀ g, w.Pending g → w'.Pending g
  pendingAt : w.PendingAt p → w'.PendingAt p
  /-- It is a commit, or somebody has the held pages written out. -/
  called : (d = .flushHeld t ∧ (w.pool.locks.modeOf p t).isSome) ∨
    (w.settles d = some (t, true) ∧ (w.Changing p → History.own t p w.history ≠ none))

/-- The before-image of the cached frame is brought back, as the only transaction that has changed the page
aborts. -/
structure Undone (w : World) (d : Deed) (p : PageId) (w' : World) : Prop where
  called : ∃ t, w.settles d = some (t, false)
  page : ∀ f, w.pool.resident[p]? = some f → w'.pool.page f = (w.pool.page f).restore
  stored : w'.pool.storage.contents p = w.pool.storage.contents p
  own : ∀ u, History.own u p w'.history = none
  frames : ∀ g, w'.Uses p g → w.pool.resident[p]? = some g

/-- What a deed can do to a page. -/
inductive PageStep (w : World) (d : Deed) (p : PageId) (w' : World) : Prop
  | rests : Rests w d p w' → PageStep w d p w'
  | wroteOut (f : FrameId) : WroteOut w d p f w' → PageStep w d p w'
  | drafts (f : FrameId) : Drafts w p f w' → PageStep w d p w'
  | changed (t : TxnId) (f : FrameId) : Changed w p t f w' → PageStep w d p w'
  | settled (t : TxnId) : Settled w d p t w' → PageStep w d p w'
  | undone : Undone w d p w' → PageStep w d p w'

section PageSteps

variable {w w' : World} {d : Deed} {t u : TxnId} {k : Task} {p : PageId} {f : FrameId} {who : Option TxnId}

/-! ## Whose frames they are -/

theorem Steady.uses_of_resident (hw : w.Steady) (hf : w.pool.resident[p]? = some f) : w.Uses p f :=
  ⟨(hw.filed p f hf).1, (hw.filed p f hf).2, .inl hf⟩

/-- A call holds the pages of the frames that it works with. -/
theorem Steady.image_held (hw : w.Steady) (hk : w.tasks u = some k) (hf : f ∈ k.call.activity.images) :
    f.index < w.pool.frames.size ∧ (w.pool.locks.modeOf (w.pool.page f).id u).isSome := by
  have hheeds := hw.heeds u k hk
  cases ha : k.call.activity with
  | working q g use =>
    rw [ha] at hf hheeds
    obtain rfl := List.mem_singleton.1 hf
    obtain ⟨-, hlt, hid, hheld⟩ := hheeds
    exact ⟨hlt, hid ▸ hheld⟩
  | installing fs =>
    cases fs with
    | nil =>
      rw [ha] at hf
      exact absurd hf List.not_mem_nil
    | cons g gs =>
      obtain ⟨hone, hlt, hX, -⟩ := hw.grip hk ⟨gs, ha⟩
      rw [hone] at hf
      obtain rfl := List.mem_singleton.1 hf
      exact ⟨hlt, by rw [hX]; rfl⟩
  | finished r =>
    rw [ha] at hheeds
    exact hheeds.elim
  | _ =>
    rw [ha] at hf
    exact absurd hf List.not_mem_nil

theorem Steady.changedBy (hw : w.Steady) (h : w.ChangedBy u f) :
    f.index < w.pool.frames.size ∧ w.pool.locks.modeOf (w.pool.page f).id u = some .exclusive := by
  obtain ⟨k, hk, hf⟩ := h
  obtain ⟨-, hlt, hX, -⟩ := hw.grip hk hf
  exact ⟨hlt, hX⟩

/-- While somebody holds a page, only that one can be about to install a change of it. -/
theorem Steady.changedBy_of_held (hw : w.Steady) (hheld : (w.pool.locks.modeOf p t).isSome)
    (hf : (w.pool.page f).id = p) (h : w.Pending f) : w.ChangedBy t f := by
  obtain ⟨u, hu⟩ := h
  obtain ⟨-, hX⟩ := hw.changedBy hu
  rw [hf] at hX
  exact LockTable.eq_of_modeOf_exclusive hX hheld ▸ hu

theorem not_pendingAt (hw : w.Steady) (hk : w.tasks t = some k) (hheld : (w.pool.locks.modeOf p t).isSome)
    (hno : ∀ f, ¬k.call.activity.Changes f) : ¬w.PendingAt p := by
  rintro ⟨f, hf, hpending⟩
  obtain ⟨k', hk', hc⟩ := hw.changedBy_of_held hheld hf hpending
  obtain rfl := Option.some.inj (hk.symm.trans hk')
  exact hno f hc

/-! ## Calls that let go of their frames -/

/-- The calls of the others stay as they are, and `who` goes on without a frame. -/
structure LetsGo (who : Option TxnId) (w w' : World) : Prop where
  others : ∀ u, who ≠ some u → w'.tasks u = w.tasks u
  works : ∀ u m, who = some u → w'.tasks u = some m → m.call.activity.images = []

/-- No call of `who` is about to install a frame. -/
def InstallsNothing (who : Option TxnId) (w : World) : Prop :=
  ∀ u k f, who = some u → w.tasks u = some k → ¬k.call.activity.Changes f

theorem letsGo_none (htasks : w'.tasks = w.tasks) : LetsGo none w w' :=
  ⟨fun u _ => congrFun htasks u, fun u m hu => by cases hu⟩

theorem installsNothing_none : InstallsNothing none w := fun u k f hu => by cases hu

theorem installsNothing_of_task (hk : w.tasks t = some k) (hno : ∀ f, ¬k.call.activity.Changes f) :
    InstallsNothing (some t) w := by
  intro u k' f hu hk'
  obtain rfl := Option.some.inj hu
  obtain rfl := Option.some.inj (hk.symm.trans hk')
  exact hno f

theorem installsNothing_of_still (hk : w.tasks t = some k) (hstill : k.call.activity.Still) :
    InstallsNothing (some t) w := installsNothing_of_task hk hstill.not_changes

theorem InstallsNothing.not_pendingAt (h : InstallsNothing (some t) w) (hw : w.Steady) (hk : w.tasks t = some k)
    (hheld : (w.pool.locks.modeOf p t).isSome) : ¬w.PendingAt p :=
  World.not_pendingAt hw hk hheld (h t k · rfl hk)

/-- A frame that is in use afterwards is cached, or somebody else works with it as before. -/
theorem LetsGo.live (h : LetsGo who w w') (hf : w'.Uses p f) : w'.pool.resident[p]? = some f ∨
    ∃ u k, who ≠ some u ∧ w.tasks u = some k ∧ f ∈ k.call.activity.images := by
  refine hf.live.imp_right ?_
  rintro ⟨u, m, hm, himage⟩
  by_cases hu : who = some u
  · rw [h.works u m hu hm] at himage
    exact absurd himage List.not_mem_nil
  · exact ⟨u, m, hu, (h.others u hu).symm.trans hm, himage⟩

theorem pending_of_others (hothers : ∀ u, who ≠ some u → w'.tasks u = w.tasks u) (hidle : InstallsNothing who w)
    (hf : w.Pending f) : w'.Pending f := by
  obtain ⟨u, k, hk, hc⟩ := hf
  by_cases hu : who = some u
  · exact absurd hc (hidle u k f hu hk)
  · exact ⟨u, k, (hothers u hu).trans hk, hc⟩

theorem LetsGo.pending (h : LetsGo who w w') (hidle : InstallsNothing who w) (hf : w.Pending f) : w'.Pending f :=
  pending_of_others h.others hidle hf

/-- A page that `t` holds exclusively is in use in the cache only, once `t` has let go of its frames. -/
theorem LetsGo.cached (h : LetsGo (some t) w w') (hw : w.Steady) (hX : w.pool.locks.modeOf p t = some .exclusive)
    (hids : ∀ g : FrameId, g.index < w.pool.frames.size → (w'.pool.page g).id = (w.pool.page g).id)
    (hf : w'.Uses p f) : w'.pool.resident[p]? = some f := by
  rcases h.live hf with hres | ⟨u, m, hu, hm, himage⟩
  · exact hres
  · obtain ⟨hlt, hheld⟩ := hw.image_held hm himage
    rw [← hids f hlt, hf.id_eq] at hheld
    exact absurd (congrArg some (LockTable.eq_of_modeOf_exclusive hX hheld).symm) hu

/-! ## A page that rests -/

/-- Frames stay as they are, or are read from the store, and the calls of others stay as they are. -/
theorem rests_of (who : Option TxnId) (hw : w.Steady) (hids : ∀ f : FrameId, f.index < w.pool.frames.size →
      (w'.pool.page f).id = (w.pool.page f).id)
    (hpage : ∀ f : FrameId, f.index < w.pool.frames.size → w'.Uses p f → w'.pool.page f = w.pool.page f)
    (hnew : ∀ f : FrameId, w.pool.frames.size ≤ f.index → w'.Uses p f → ReadIn w w' p f)
    (hcache : w'.pool.resident[p]? = w.pool.resident[p]? ∨
      (w'.pool.resident[p]? = none ∧ ∃ f, w.pool.resident[p]? = some f ∧ (w.pool.page f).dirty = none) ∨
      ∃ f, ReadIn w w' p f)
    (hstored : w.pool.storage.HasPage p → w'.pool.storage.contents p = w.pool.storage.contents p)
    (hown : ∀ u, History.own u p w'.history = History.own u p w.history)
    (htasks : ∀ u, who ≠ some u → w'.tasks u = w.tasks u)
    (hworks : ∀ u m f, who = some u → w'.tasks u = some m → f ∈ m.call.activity.images →
      (w'.pool.page f).id = p → w'.pool.resident[p]? = some f)
    (hinstalls : ∀ u k f, who = some u → w.tasks u = some k → k.call.activity.Changes f →
      (w.pool.page f).id = p → w.Loses u p d ∧ ¬w'.Uses p f) : Rests w d p w' where
  stored := hstored
  own := hown
  cache := hcache
  frames f hf := by
    by_cases hlt : f.index < w.pool.frames.size
    · have hid : (w.pool.page f).id = p := (hids f hlt).symm.trans hf.id_eq
      have hpending : w.Pending f → w'.Pending f := by
        rintro ⟨u, k, hk, hc⟩
        by_cases hu : who = some u
        · exact absurd hf (hinstalls u k f hu hk hc hid).2
        · exact ⟨u, k, (htasks u hu).trans hk, hc⟩
      have hresident : w'.pool.resident[p]? = some f → Unmoved w w' p f ∨ ReadIn w w' p f := by
        intro hres
        rcases hcache with hsame | ⟨hnone, -⟩ | ⟨g, hg⟩
        · exact .inl ⟨hw.uses_of_resident (hsame ▸ hres), hpage f hlt hf, hpending⟩
        · rw [hnone] at hres
          cases hres
        · exact .inr (Option.some.inj (hg.resident.symm.trans hres) ▸ hg)
      rcases hf.live with hres | ⟨u, m, hm, himage⟩
      · exact hresident hres
      · by_cases hu : who = some u
        · exact hresident (hworks u m f hu hm himage hf.id_eq)
        · exact .inl ⟨⟨hlt, hid, .inr ⟨u, m, (htasks u hu).symm.trans hm, himage⟩⟩, hpage f hlt hf, hpending⟩
    · exact .inr (hnew f (Nat.not_lt.1 hlt) hf)
  pending := by
    rintro ⟨f, hid, u, k, hk, hc⟩
    by_cases hu : who = some u
    · exact .inr ⟨u, (hinstalls u k f hu hk hc hid).1⟩
    · obtain ⟨-, hlt, -⟩ := hw.grip hk hc
      exact .inl ⟨f, (hids f hlt).trans hid, u, k, (htasks u hu).trans hk, hc⟩

/-- Frames stay as they are, and the calls of others too. -/
theorem LetsGo.rests (h : LetsGo who w w') (hidle : InstallsNothing who w) (hw : w.Steady)
    (hids : ∀ f : FrameId, f.index < w.pool.frames.size → (w'.pool.page f).id = (w.pool.page f).id)
    (hold : ∀ f, w'.Uses p f → f.index < w.pool.frames.size)
    (hpage : ∀ f, w'.Uses p f → w'.pool.page f = w.pool.page f)
    (hcache : w'.pool.resident[p]? = w.pool.resident[p]? ∨
      (w'.pool.resident[p]? = none ∧ ∃ f, w.pool.resident[p]? = some f ∧ (w.pool.page f).dirty = none))
    (hstored : w.pool.storage.HasPage p → w'.pool.storage.contents p = w.pool.storage.contents p)
    (hown : ∀ u, History.own u p w'.history = History.own u p w.history) : Rests w d p w' := by
  refine rests_of who hw hids (fun f _ => hpage f) (fun f hge hf => absurd (hold f hf) (Nat.not_lt.2 hge))
    (hcache.imp_right .inl) hstored hown h.others (fun u m f hu hm himage => ?_)
    fun u k f hu hk hc => absurd hc (hidle u k f hu hk)
  rw [h.works u m hu hm] at himage
  exact absurd himage List.not_mem_nil

/-- A deed that leaves frames and cache alone. -/
theorem LetsGo.rests_of_frames (h : LetsGo who w w') (hidle : InstallsNothing who w) (hw : w.Steady)
    (hframes : w'.pool.frames = w.pool.frames) (hresident : w'.pool.resident = w.pool.resident)
    (hgrown : w.pool.storage.Grown w'.pool.storage)
    (hown : ∀ u, History.own u p w'.history = History.own u p w.history) : Rests w d p w' := by
  have hpage : ∀ f, w'.pool.page f = w.pool.page f := Pool.page_congr hframes
  exact h.rests hidle hw (fun f _ => by rw [hpage]) (fun f hf => hframes ▸ hf.index_lt) (fun f _ => hpage f)
    (.inl (by rw [hresident])) (hgrown.contents p) hown

/-! ## Sections of calls -/

theorem tasks_runSection_other (hu : some t ≠ some u) : (w.runSection t k).tasks u = w.tasks u :=
  Function.update_of_ne (fun he => hu (by rw [he])) _ _

theorem tasks_runSection_self : (w.runSection t k).tasks t =
    k.after (k.call.step w.pool).1 (k.call.step w.pool).2 := Function.update_self t _ w.tasks

theorem letsGo_runSection (himages : ∀ m, k.after (k.call.step w.pool).1 (k.call.step w.pool).2 = some m →
    m.call.activity.images = []) : LetsGo (some t) w (w.runSection t k) where
  others u := tasks_runSection_other
  works u m hu hm := by
    obtain rfl := Option.some.inj hu
    exact himages m (tasks_runSection_self.symm.trans hm)

/-- **A fetch leaves every page alone**, but it may evict clean ones and read in its own. -/
theorem Steady.rests_of_fetched {q : PageId} (hw : w.Steady) (hk : w.tasks t = some k)
    (hidle : InstallsNothing (some t) w) (hheld : (w.pool.locks.modeOf q t).isSome)
    (hQ : w.pool.Fetched q w'.pool) (hown : ∀ u, History.own u p w'.history = History.own u p w.history)
    (htasks : ∀ u, some t ≠ some u → w'.tasks u = w.tasks u)
    (hleft : ∀ m, w'.tasks t = some m → ∃ f use, m.call.activity = .working q f use ∧
      w'.pool.resident[q]? = some f ∧ (w'.pool.page f).id = q) : Rests w d p w' := by
  have hnew : ∀ f : FrameId, w.pool.frames.size ≤ f.index → f.index < w'.pool.frames.size →
      (w'.pool.page f).id = p → ReadIn w w' p f := by
    intro f hge hlt hid
    obtain ⟨hpage, -, hnone, hres⟩ := hQ.new f hge hlt
    rw [hpage] at hid
    obtain rfl : q = p := hid
    exact ⟨hnone, hres, hpage, hidle.not_pendingAt hw hk hheld⟩
  refine rests_of (some t) hw (fun f hf => by rw [hQ.old f hf]) (fun f hf _ => hQ.old f hf)
    (fun f hge huses => hnew f hge huses.index_lt huses.id_eq) ?_ (fun _ => by rw [hQ.storage]) hown htasks
    (fun u m f hu hm himage hid => ?_) fun u k' f hu hk' hc => absurd hc (hidle u k' f hu hk')
  · rcases hQ.cache p with hsame | hgone | ⟨rfl, g, hg, hge, hlt⟩
    · exact .inl hsame
    · exact .inr (.inl hgone)
    · refine .inr (.inr ⟨g, hnew g hge hlt ?_⟩)
      rw [(hQ.new g hge hlt).1]
      rfl
  · obtain rfl := Option.some.inj hu
    obtain ⟨g, use, ha, hres, hgid⟩ := hleft m hm
    rw [ha] at himage
    obtain rfl := List.mem_singleton.1 himage
    exact hid ▸ hgid ▸ hres

/-- A transaction writes to a frame of its page, -/
theorem Steady.drafts_runSection (hw : w.Steady) (hk : w.tasks t = some k) {use : Use} {x : PageData}
    (ha : k.call.activity = .working p f use) (hwrites : use.Writes)
    (hpool : (w.runSection t k).pool = w.pool.setPage f ((w.pool.page f).withData x))
    (hleft : ∃ m, (w.runSection t k).tasks t = some m ∧ m.call.activity = .installing [f]) :
    Drafts w p f (w.runSection t k) := by
  obtain ⟨hid, -, hsole⟩ := hw.grip_working hk ha hwrites
  have himage : f ∈ k.call.activity.images := by rw [ha]; exact List.mem_singleton.2 rfl
  obtain ⟨hlt, -⟩ := hw.image_held hk himage
  have hstill : k.call.activity.Still := by rw [ha]; trivial
  obtain ⟨m, hm, hinst⟩ := hleft
  refine ⟨⟨hlt, hid, .inr ⟨t, k, hk, himage⟩⟩, ⟨x, ?_⟩, ⟨t, m, hm, [], hinst⟩, hsole, by rw [hpool]; rfl,
    by rw [hpool]; rfl, fun u => Task.own_events_still hstill, fun g hg => ?_⟩
  · rw [hpool, Pool.page_setPage, if_pos ⟨rfl, hlt⟩]
  by_cases hgf : g = f
  · exact .inl hgf
  have hsame : (w.runSection t k).pool.page g = w.pool.page g := by rw [hpool, Pool.page_setPage_of_ne _ _ hgf]
  refine .inr ⟨⟨?_, hsame ▸ hg.id_eq, ?_⟩, hsame,
    pending_of_others (fun u => tasks_runSection_other) (installsNothing_of_still hk hstill)⟩
  · have hold := hg.index_lt
    rwa [hpool, Pool.size_setPage] at hold
  · rcases hg.live with hres | ⟨u, m', hm', himage'⟩
    · rw [hpool] at hres
      exact .inl hres
    · by_cases hu : some t = some u
      · obtain rfl := Option.some.inj hu
        obtain rfl := Option.some.inj (hm.symm.trans hm')
        rw [hinst] at himage'
        exact absurd (List.mem_singleton.1 himage') hgf
      · exact .inr ⟨u, m', (tasks_runSection_other hu).symm.trans hm', himage'⟩

/-- and the other pages rest. -/
theorem Steady.rests_of_draft (hw : w.Steady) (hk : w.tasks t = some k) {q : PageId} {use : Use} {x : PageData}
    (ha : k.call.activity = .working q f use) (hwrites : use.Writes)
    (hpool : (w.runSection t k).pool = w.pool.setPage f ((w.pool.page f).withData x))
    (hleft : ∃ m, (w.runSection t k).tasks t = some m ∧ m.call.activity = .installing [f]) (hq : q ≠ p) :
    Rests w d p (w.runSection t k) := by
  obtain ⟨hid, -, -⟩ := hw.grip_working hk ha hwrites
  have hstill : k.call.activity.Still := by rw [ha]; trivial
  have hids : ∀ g, ((w.runSection t k).pool.page g).id = (w.pool.page g).id := fun g => by
    rw [hpool]
    exact w.pool.id_setPage (f := f) (x := (w.pool.page f).withData x) rfl g
  have hne : ∀ g, ((w.runSection t k).pool.page g).id = p → g ≠ f := by
    rintro g hgp rfl
    exact hq (hid.symm.trans ((hids g).symm.trans hgp))
  obtain ⟨m, hm, hinst⟩ := hleft
  refine rests_of (some t) hw (fun g _ => hids g) (fun g _ hg => ?_) (fun g hge hg => absurd hg.index_lt ?_)
    (.inl (by rw [hpool]; rfl)) (fun _ => by rw [hpool]; rfl) (fun u => Task.own_events_still hstill)
    (fun u => tasks_runSection_other) (fun u m' g hu hm' himage hgp => ?_) fun u k' g hu hk' hc =>
      absurd hc (installsNothing_of_still hk hstill u k' g hu hk')
  · rw [hpool, Pool.page_setPage_of_ne _ _ (hne g hg.id_eq)]
  · rw [hpool, Pool.size_setPage]
    exact Nat.not_lt.2 hge
  · obtain rfl := Option.some.inj hu
    obtain rfl := Option.some.inj (hm.symm.trans hm')
    rw [hinst] at himage
    exact absurd (List.mem_singleton.1 himage) (hne g hgp)

/-- An install of another page, or one that finds no room. -/
theorem Steady.rests_of_marked (hw : w.Steady) (hk : w.tasks t = some k)
    (ha : k.call.activity = .installing [f]) (hm : w.pool.Marked t f (w.runSection t k).pool)
    (hgo : LetsGo (some t) w (w.runSection t k))
    (hcache : (w.runSection t k).pool.resident[p]? = w.pool.resident[p]? ∨
      ((w.runSection t k).pool.resident[p]? = none ∧
        ∃ g, w.pool.resident[p]? = some g ∧ (w.pool.page g).dirty = none))
    (hown : ∀ u, History.own u p (w.runSection t k).history = History.own u p w.history)
    (hlost : (w.pool.page f).id = p → w.Loses t p d ∧ ¬(w.runSection t k).Uses p f) :
    Rests w d p (w.runSection t k) := by
  refine rests_of (some t) hw (fun g _ => hm.ids g) (fun g _ huses => hm.other g fun hgf => ?_)
    (fun g hge huses => absurd huses.index_lt (by rw [hm.size]; exact Nat.not_lt.2 hge))
    (hcache.imp_right .inl) (fun _ => by rw [hm.storage]) hown hgo.others
    (fun u m g hu hleft himage _ => ?_) fun u k' g hu hk' hc hgp => ?_
  · subst hgf
    exact (hlost ((hm.ids g).symm.trans huses.id_eq)).2 huses
  · rw [hgo.works u m hu hleft] at himage
    exact absurd himage List.not_mem_nil
  · obtain rfl := Option.some.inj hu
    obtain rfl := Option.some.inj (hk.symm.trans hk')
    obtain ⟨fs, hfs⟩ := hc
    obtain rfl : f = g := (List.cons.inj (Activity.installing.inj (ha.symm.trans hfs))).1
    exact hlost hgp

theorem Steady.pageStep_install (hw : w.Steady) (hk : w.tasks t = some k)
    (ha : k.call.activity = .installing [f]) (hm : w.pool.Marked t f (w.runSection t k).pool)
    (hres : (w.runSection t k).pool.resident[(w.pool.page f).id]? = some f)
    (hleft : ∃ m, k.after (k.call.step w.pool).1 (k.call.step w.pool).2 = some m ∧
      m.call.activity = .installing []) : PageStep w d p (w.runSection t k) := by
  obtain ⟨-, hlt, hX, -⟩ := hw.grip hk ⟨[], ha⟩
  obtain ⟨m, hm', hdone⟩ := hleft
  have hhistory : (w.runSection t k).history = .stored t (w.pool.page f).id (w.pool.page f).data :: w.history := by
    have hdraft := hw.heeds t k hk
    rw [ha] at hdraft
    show k.events w.pool (k.call.step w.pool).1 (k.call.step w.pool).2 ++ w.history = _
    simp only [Task.events, ha, Task.call_live hm', show k.draft = some (w.pool.page f).data from hdraft, hw.txn hk]
    rfl
  have hgo : LetsGo (some t) w (w.runSection t k) := by
    refine letsGo_runSection fun m' hm'' => ?_
    obtain rfl := Option.some.inj (hm'.symm.trans hm'')
    rw [hdone]
    rfl
  by_cases hp : (w.pool.page f).id = p
  · subst hp
    have huses : w.Uses (w.pool.page f).id f :=
      ⟨hlt, rfl, .inr ⟨t, k, hk, by rw [ha]; exact List.mem_singleton.2 rfl⟩⟩
    refine .changed t f ⟨hres, by rw [hm.self]; rfl, ?_, fun u hu => ?_, .inl ⟨huses, by rw [hm.self]; rfl⟩,
      by rw [hm.storage], fun g hg => ?_⟩
    · rw [hhistory, History.own, if_pos ⟨rfl, rfl⟩, hm.self]
      rfl
    · have hnone := hw.own_none_of_held (by rw [hX]; rfl) hu
      exact ⟨hnone, by rw [hhistory, History.own, if_neg fun hboth => hu hboth.1.symm, hnone]⟩
    · exact Option.some.inj ((hgo.cached hw hX (fun g _ => hm.ids g) hg).symm.trans hres)
  · refine .rests (hw.rests_of_marked hk ha hm hgo (hm.cache p fun he => hp he.symm) (fun u => ?_)
      fun he => absurd he hp)
    rw [hhistory, History.own, if_neg fun hboth => hp hboth.2]

theorem Steady.pageStep_lose (hw : w.Steady) (hk : w.tasks t = some k)
    (ha : k.call.activity = .installing [f]) (hm : w.pool.Marked t f (w.runSection t k).pool)
    (herror : ∃ e, (w.pool.install t f).2 = .error e) (hnone : w.pool.resident[(w.pool.page f).id]? = none)
    (hgone : (w.runSection t k).pool.resident[(w.pool.page f).id]? = none)
    (hleft : k.after (k.call.step w.pool).1 (k.call.step w.pool).2 = none) :
    Rests w (.act (.advance t)) p (w.runSection t k) := by
  obtain ⟨-, hlt, hX, -⟩ := hw.grip hk ⟨[], ha⟩
  have hhistory : (w.runSection t k).history = w.history := by
    show k.events w.pool (k.call.step w.pool).1 (k.call.step w.pool).2 ++ w.history = _
    simp only [Task.events, ha]
    split
    · rename_i hlive _
      rw [Task.after, hlive] at hleft
      cases hleft
    · rfl
  have hgo : LetsGo (some t) w (w.runSection t k) := by
    refine letsGo_runSection fun m hm' => ?_
    rw [hleft] at hm'
    cases hm'
  refine hw.rests_of_marked hk ha hm hgo ?_ (fun u => by rw [hhistory]) fun hp => ?_
  · by_cases hp : p = (w.pool.page f).id
    · rw [hp]
      exact .inl (hgone.trans hnone.symm)
    · exact hm.cache p hp
  · refine ⟨⟨rfl, k, f, hk, ⟨[], ha⟩, hp, herror⟩, fun huses => ?_⟩
    have hcached := hgo.cached hw (hp ▸ hX) (fun g _ => hm.ids g) huses
    rw [← hp, hgone] at hcached
    cases hcached

/-! ## Ends -/

/-- The pages that `t` holds are written and captured, by a commit or for a client, -/
theorem Steady.settled_of_flushHeld (hw : w.Steady) (hgo : LetsGo who w w') (hidle : InstallsNothing who w)
    (hpool : w'.pool = (w.pool.flushHeld t).1) (hheld : (w.pool.locks.modeOf p t).isSome)
    (hown : ∀ u, History.own u p w'.history ≠ none → History.own u p w'.history = History.own u p w.history)
    (hframes : ∀ g, w'.Uses p g → w'.pool.resident[p]? = some g ∨
      ∀ u, History.own u p w'.history = History.own u p w.history)
    (hcalled : d = .flushHeld t ∨
      (w.settles d = some (t, true) ∧ (w.Changing p → History.own t p w.history ≠ none))) :
    Settled w d p t w' := by
  obtain ⟨hre, hwritten⟩ := Pool.flushHeld_spec hw.sound hw.filed (fun p f => hw.within) t
  rw [← hpool] at hre hwritten
  have hids := hre.id_eq fun _ _ => rfl
  have hmem : p ∈ w.pool.locks.heldPages t := (LockTable.mem_heldPages hw.locks).2 hheld
  refine ⟨by rw [hre.resident], hre.listed p hmem, hwritten.listed p hmem,
    fun hclean => hwritten.other p fun _ => hclean, hown, fun g hg => ?_, fun g => hgo.pending hidle, ?_,
    hcalled.imp_left fun hd => ⟨hd, hheld⟩⟩
  · by_cases hres : w.pool.resident[p]? = some g
    · exact .inl hres
    -- A frame that was evicted is not written.
    have hid : (w.pool.page g).id = p := (hids g).symm.trans hg.id_eq
    have hgone : w'.pool.resident[p]? ≠ some g := fun hc => hres (hre.resident ▸ hc)
    obtain ⟨u, k, -, hk, himage⟩ := (hgo.live hg).resolve_left hgone
    exact .inr ⟨⟨⟨hre.size ▸ hg.index_lt, hid, .inr ⟨u, k, hk, himage⟩⟩,
      hre.page_of_uncached hw.filed (hid ▸ hres), hgo.pending hidle⟩, (hframes g hg).resolve_left hgone⟩
  · rintro ⟨g, hid, hg⟩
    exact ⟨g, (hids g).trans hid, hgo.pending hidle hg⟩

/-- and the other pages rest. -/
theorem Steady.rests_of_flushHeld (hw : w.Steady) (hgo : LetsGo who w w') (hidle : InstallsNothing who w)
    (hpool : w'.pool = (w.pool.flushHeld t).1) (hfree : w.pool.locks.modeOf p t = none)
    (hown : ∀ u, History.own u p w'.history = History.own u p w.history) : Rests w d p w' := by
  obtain ⟨hre, hwritten⟩ := Pool.flushHeld_spec hw.sound hw.filed (fun p f => hw.within) t
  rw [← hpool] at hre hwritten
  have hids := hre.id_eq fun _ _ => rfl
  have hnot : p ∉ w.pool.locks.heldPages t := fun hmem => by
    have hheld := (LockTable.mem_heldPages hw.locks).1 hmem
    rw [hfree] at hheld
    cases hheld
  refine hgo.rests hidle hw (fun g _ => hids g) (fun g hg => hre.size ▸ hg.index_lt) (fun g hg => ?_)
    (.inl (by rw [hre.resident])) (fun _ => hwritten.other p fun hmem => absurd hmem hnot) hown
  exact hre.page_of_unlisted hw.filed ((hids g).symm.trans hg.id_eq ▸ hnot)

/-- A commit of `t` settles the pages that it holds. -/
theorem Steady.pageStep_commit (hw : w.Steady) (hgo : LetsGo (some t) w w') (hk : w.tasks t = some k)
    (hidle : InstallsNothing (some t) w) (hsettles : w.settles d = some (t, true))
    (hpool : w'.pool = (w.pool.flushHeld t).1) (hended : History.own t p w'.history = none)
    (hothers : ∀ u, u ≠ t → History.own u p w'.history = History.own u p w.history) : PageStep w d p w' := by
  have hown : History.own t p w.history = none → ∀ u, History.own u p w'.history = History.own u p w.history := by
    intro hnone u
    by_cases hu : u = t
    · rw [hu, hended, hnone]
    · exact hothers u hu
  by_cases hheld : (w.pool.locks.modeOf p t).isSome
  · refine .settled t (hw.settled_of_flushHeld hgo hidle hpool hheld (fun u hu => hothers u ?_) (fun g hg => ?_)
      (.inr ⟨hsettles, ?_⟩))
    · rintro rfl
      exact hu hended
    · by_cases hnone : History.own t p w.history = none
      · exact .inr (hown hnone)
      · exact .inl (hgo.cached hw (hw.owned t p hnone).1 (hpool ▸ (hw.onward_flushHeld t).ids) hg)
    · -- Nobody else has changed a page that `t` holds.
      rintro (⟨u, hu⟩ | hpending)
      · by_cases hut : u = t
        · exact hut ▸ hu
        · exact absurd (hw.own_none_of_held hheld hut) hu
      · exact absurd hpending (hidle.not_pendingAt hw hk hheld)
  · have hfree : w.pool.locks.modeOf p t = none := Option.not_isSome_iff_eq_none.1 hheld
    refine .rests (hw.rests_of_flushHeld hgo hidle hpool hfree (hown ?_))
    by_contra hchanged
    rw [(hw.owned t p hchanged).1] at hfree
    cases hfree

/-- An abort of `t` restores the pages that it holds exclusively. -/
theorem Steady.pageStep_abort (hw : w.Steady) (hgo : LetsGo (some t) w w')
    (hidle : InstallsNothing (some t) w) (hsettles : w.settles d = some (t, false))
    (hpool : w'.pool = w.pool.restoreHeld t) (hended : History.own t p w'.history = none)
    (hothers : ∀ u, u ≠ t → History.own u p w'.history = History.own u p w.history) : PageStep w d p w' := by
  obtain ⟨hstorage, hre⟩ := Pool.restoreHeld_spec hw.filed t
  have hpage := Pool.page_restoreHeld hw.filed hw.locks t
  rw [← hpool] at hstorage hre hpage
  have hids : ∀ g, (w'.pool.page g).id = (w.pool.page g).id := fun g => by
    rw [hpage]
    split <;> rfl
  by_cases hX : w.pool.locks.modeOf p t = some .exclusive
  · refine .undone ⟨⟨t, hsettles⟩, fun f hf => ?_, by rw [hstorage], fun u => ?_, fun g hg => ?_⟩
    · rw [hpage, if_pos]
      rw [Pool.restores, (hw.filed p f hf).2]
      simp only [hX, hf, decide_true, Bool.and_self]
    · by_cases hu : u = t
      · rw [hu, hended]
      · rw [hothers u hu, hw.own_none_of_held (by rw [hX]; rfl) hu]
    · rw [← hre.resident]
      exact hgo.cached hw hX (fun g _ => hids g) hg
  · refine .rests (hgo.rests hidle hw (fun g _ => hids g) (fun g hg => hre.size ▸ hg.index_lt) (fun g hg => ?_)
      (.inl (by rw [hre.resident])) (fun _ => by rw [hstorage]) fun u => ?_)
    · rw [hpage, if_neg]
      intro hrest
      refine hX ?_
      rw [← hg.id_eq, hids]
      simpa using (Bool.and_eq_true_iff.1 hrest).1
    · by_cases hu : u = t
      · subst hu
        rw [hended]
        by_contra hown
        exact hX (hw.owned u p (Ne.symm hown)).1
      · exact hothers u hu

theorem Steady.pageStep_settle (hw : w.Steady) (hk : w.tasks t = some k) {commit : Bool}
    (ha : k.call.activity = .start (.complete commit))
    (hpool : (w.runSection t k).pool = (w.pool.settlePages t commit).1)
    (hgo : LetsGo (some t) w (w.runSection t k)) : PageStep w (.act (.advance t)) p (w.runSection t k) := by
  have hhistory : (w.runSection t k).history = .ended t commit :: w.history := by
    show k.events w.pool (k.call.step w.pool).1 (k.call.step w.pool).2 ++ w.history = _
    simp only [Task.events, ha, hw.txn hk]
    rfl
  have hidle : InstallsNothing (some t) w :=
    installsNothing_of_task hk (ha ▸ Activity.not_changes_start _)
  have hended : History.own t p (w.runSection t k).history = none := by
    rw [hhistory, History.own, if_pos rfl]
  have hothers : ∀ u, u ≠ t → History.own u p (w.runSection t k).history = History.own u p w.history :=
    fun u hu => by rw [hhistory, History.own, if_neg (Ne.symm hu)]
  have hsettles : w.settles (.act (.advance t)) = some (t, commit) := by simp only [settles, hk, ha]
  cases commit with
  | false => exact hw.pageStep_abort hgo hidle hsettles hpool hended hothers
  | true => exact hw.pageStep_commit hgo hk hidle hsettles hpool hended hothers

/-- **What a section of a call does to a page.** -/
theorem Steady.pageStep_runSection (hw : w.Steady) (hk : w.tasks t = some k) :
    PageStep w (.act (.advance t)) p (w.runSection t k) := by
  cases hw.effect hk with
  | quiet hquiet hframes hresident hstorage himages =>
    refine .rests ((letsGo_runSection himages).rests_of_frames (installsNothing_of_still hk hquiet) hw hframes
      hresident ?_ fun u => Task.own_events_still hquiet)
    rw [show (w.runSection t k).pool.storage = w.pool.storage from hstorage]
    exact Tables.grown_refl hw.sound
  | fetches q use ha hQ hnext =>
    obtain ⟨A, hfits⟩ := hw.fitting hk
    have hact := hfits.activity
    rw [ha] at hact
    have hquiet : k.call.activity.Still := by rw [ha]; trivial
    refine .rests (hw.rests_of_fetched hk (installsNothing_of_still hk hquiet) hact.2.1 hQ
      (fun u => Task.own_events_still hquiet) (fun u => tasks_runSection_other) fun m hm => ?_)
    obtain ⟨f, hwork, hres⟩ := hnext m (tasks_runSection_self.symm.trans hm)
    exact ⟨f, use, hwork, hres, (hQ.filed hw.filed q f hres).2⟩
  | drafts q f use x ha hwrites hpool hnext =>
    obtain ⟨m, hm, hinst, -⟩ := hnext
    have hleft : ∃ m, (w.runSection t k).tasks t = some m ∧ m.call.activity = .installing [f] :=
      ⟨m, tasks_runSection_self.trans hm, hinst⟩
    by_cases hq : q = p
    · exact .drafts f (hw.drafts_runSection hk (hq ▸ ha) hwrites hpool hleft)
    · exact .rests (hw.rests_of_draft hk ha hwrites hpool hleft hq)
  | installs f ha hm hres hnext => exact hw.pageStep_install hk ha hm hres hnext
  | loses f ha hm herror hnone hgone hnext => exact .rests (hw.pageStep_lose hk ha hm herror hnone hgone hnext)
  | grows i ha hframes hresident _ hgrown himages =>
    have hquiet : k.call.activity.Still := by rw [ha]; trivial
    exact .rests ((letsGo_runSection himages).rests_of_frames (installsNothing_of_still hk hquiet) hw hframes
      hresident hgrown fun u => Task.own_events_still hquiet)
  | settles commit ha hpool himages => exact hw.pageStep_settle hk ha hpool (letsGo_runSection himages)

/-! ## Clients -/

/-- `w'` is `w` after a client of `t` was given the frame `f` of the page `q` and has overwritten it. -/
structure Overwrote (w : World) (t : TxnId) (q : PageId) (f : FrameId) (w' : World) : Prop where
  letsGo : LetsGo (some t) w w'
  resident : w'.pool.resident[q]? = some f
  id_eq : (w'.pool.page f).id = q
  dirty : (w'.pool.page f).dirty = some t
  before : (w.pool.resident[q]? = some f ∧ (w'.pool.page f).beforeImage = (w.pool.page f).beforeImage) ∨
    (w'.pool.page f).beforeImage = w.pool.storage.contents q
  storage : w'.pool.storage = w.pool.storage
  own : ∀ u p, History.own u p w'.history =
    if t = u ∧ q = p then some (w'.pool.page f).data else History.own u p w.history
  ids : ∀ g : FrameId, g.index < w.pool.frames.size → (w'.pool.page g).id = (w.pool.page g).id
  other : ∀ g : FrameId, g.index < w.pool.frames.size → g ≠ f → w'.pool.page g = w.pool.page g
  /-- A new frame is one of the page. -/
  fresh : ∀ g : FrameId, w.pool.frames.size ≤ g.index → g.index < w'.pool.frames.size → (w'.pool.page g).id = q
  cache : ∀ p, p ≠ q → w'.pool.resident[p]? = w.pool.resident[p]? ∨
    (w'.pool.resident[p]? = none ∧ ∃ g, w.pool.resident[p]? = some g ∧ (w.pool.page g).dirty = none)

theorem Steady.overwrote_editPage (hw : w.Steady) {q : PageId} {Q : Pool Tables}
    (hfetch : w.pool.fetch q = (Q, .ok f)) (rule : Rule) : Overwrote w t q f (w.editPage t q rule) := by
  have hQ := Pool.fetched_of_fetch hfetch
  have hres := Pool.resident_of_fetch hfetch
  obtain ⟨hlt, hid⟩ := hQ.filed hw.filed q f hres
  obtain ⟨x, hx⟩ : ∃ x, rule (History.reads t w.history ++ [(Q.page f).data]) = x := ⟨_, rfl⟩
  have heq : w.editPage t q rule = { pool := Q.setPage f (((Q.page f).withData x).markDirty t)
                                     tasks := Function.update w.tasks t none
                                     history := .edited t q rule x :: .got t q (Q.page f).data :: w.history } := by
    simp only [World.editPage, hfetch, hx]
  rw [heq]
  have hself : (Q.setPage f (((Q.page f).withData x).markDirty t)).page f =
      ((Q.page f).withData x).markDirty t := by rw [Pool.page_setPage, if_pos ⟨rfl, hlt⟩]
  have hids := Q.id_setPage (f := f) (x := ((Q.page f).withData x).markDirty t) rfl
  refine ⟨⟨fun u hu => Function.update_of_ne (fun he => hu (by rw [he])) _ _, fun u m hu hm => ?_⟩, hres,
    (hids f).trans hid, congrArg Page.dirty hself, ?_, hQ.storage, fun u p => ?_,
    fun g hg => (hids g).trans (by rw [hQ.old g hg]),
    fun g hg hgf => (Q.page_setPage_of_ne _ hgf).trans (hQ.old g hg), fun g hge hg => ?_, fun p hp => ?_⟩
  · obtain rfl := Option.some.inj hu
    cases (Function.update_self t _ w.tasks).symm.trans hm
  · rcases Pool.page_of_fetch hfetch with ⟨hcached, hpage⟩ | hpage
    · exact .inl ⟨hcached, (congrArg Page.beforeImage hself).trans (by rw [hpage]; rfl)⟩
    · exact .inr ((congrArg Page.beforeImage hself).trans (by rw [hpage]; rfl))
  · show History.own u p (Event.edited _ _ _ _ :: _) = if _ then some (Page.data (Pool.page _ f)) else _
    rw [hself]
    rfl
  · rw [Pool.size_setPage] at hg
    exact (hids g).trans (congrArg Page.id (hQ.new g hge hg).1)
  · rcases hQ.cache p with hsame | hgone | ⟨hpq, -⟩
    · exact .inl hsame
    · exact .inr hgone
    · exact absurd hpq hp

/-- **What a client does to a page that overwrites its page.** -/
theorem Steady.pageStep_editPage (hw : w.Steady) (hk : w.tasks t = some k) {rule : Rule} {use : Use} {q : PageId}
    (hrule : k.rule = some rule) (ha : k.call.activity = .fetching q use) :
    PageStep w d p (w.editPage t q rule) := by
  have hX := hw.exclusive_of_rule hk hrule ha
  have hidle : InstallsNothing (some t) w := installsNothing_of_still hk (by rw [ha]; trivial)
  rcases hfetch : w.pool.fetch q with ⟨Q, e | f⟩
  · have hw' : w.editPage t q rule = { w.setTask t none with pool := Q } := by
      simp only [World.editPage, hfetch]
    rw [hw']
    refine .rests (hw.rests_of_fetched hk hidle (by rw [hX]; rfl) (Pool.fetched_of_fetch hfetch) (fun _ => rfl)
      (fun u hu => ?_) fun m hm => ?_)
    · exact Function.update_of_ne (fun he => hu (by rw [he])) _ _
    · cases (Function.update_self t _ w.tasks).symm.trans hm
  · have h := hw.overwrote_editPage (t := t) hfetch rule
    by_cases hq : q = p
    · subst hq
      refine .changed t f ⟨h.resident, h.dirty, by rw [h.own, if_pos ⟨rfl, rfl⟩], fun u hu => ?_,
        h.before.imp_left (And.imp_left hw.uses_of_resident), by rw [h.storage],
        fun g hg => ?_⟩
      · have hfree := hw.own_none_of_held (by rw [hX]; rfl) hu
        exact ⟨hfree, by rw [h.own, if_neg fun hboth => hu hboth.1.symm, hfree]⟩
      · exact Option.some.inj ((h.letsGo.cached hw hX h.ids hg).symm.trans h.resident)
    · have hold : ∀ g, (w.editPage t q rule).Uses p g → g.index < w.pool.frames.size := fun g hg =>
        by_contra fun hge => hq ((h.fresh g (Nat.not_lt.1 hge) hg.index_lt).symm.trans hg.id_eq)
      refine .rests (h.letsGo.rests hidle hw h.ids hold (fun g hg => h.other g (hold g hg) ?_)
        (h.cache p (Ne.symm hq)) (fun _ => by rw [h.storage]) fun u => ?_)
      · rintro rfl
        exact hq (h.id_eq.symm.trans hg.id_eq)
      · rw [h.own, if_neg fun hboth => hq hboth.2]

/-- Pages are written out for a client, -/
theorem Steady.wroteOut_flushIn (hw : w.Steady) {ps : List PageId} {Q : Pool Tables} (hclean : w.pool.Cleaned Q ps)
    (hps : ps.Nodup) (hp : p ∈ ps) (hcalled : d.WritesOut p) {f : FrameId} (hf : w.pool.resident[p]? = some f)
    (hdirty : (w.pool.page f).dirty ≠ none) : WroteOut w d p f { w with pool := Q } := by
  have hre := hclean.pages
  have hids := hre.id_eq fun _ _ => rfl
  have hx : w.pool.dirtyImage p = some (w.pool.page f) := Pool.dirtyImage_of_dirty hf hdirty
  have hstored := (hclean.overwritten hw.lodged hps).contents_eq hw.filed p
  refine ⟨hcalled, hx, (congrArg (·[p]?) hre.resident).trans hf, hf, hre.listed p hp f hf, ?_, fun _ => rfl,
    fun g hg => ?_, fun g => id⟩
  · show Q.storage.contents p = _
    rw [hstored.1 hp, hx]
    rfl
  · by_cases hgf : g = f
    · exact .inl hgf
    have hid : (w.pool.page g).id = p := (hids g).symm.trans hg.id_eq
    have hres : w.pool.resident[p]? ≠ some g := fun hres => hgf (Option.some.inj (hres.symm.trans hf))
    exact .inr ⟨⟨hre.size ▸ hg.index_lt, hid, hg.live.imp_left ((congrArg (·[p]?) hre.resident).symm.trans ·)⟩,
      hre.page_of_uncached hw.filed (hid ▸ hres), id⟩

/-- and the other pages rest. -/
theorem Steady.rests_of_flushIn (hw : w.Steady) {ps : List PageId} {Q : Pool Tables} (hclean : w.pool.Cleaned Q ps)
    (hps : ps.Nodup) (hp : p ∈ ps → w.pool.dirtyImage p = none) : Rests w d p { w with pool := Q } := by
  have hre := hclean.pages
  have hids := hre.id_eq fun _ _ => rfl
  have hstored := (hclean.overwritten hw.lodged hps).contents_eq hw.filed p
  have hgo : LetsGo none w { w with pool := Q } := letsGo_none rfl
  refine hgo.rests installsNothing_none hw (fun g _ => hids g) (fun g hg => hre.size ▸ hg.index_lt) (fun g hg => ?_)
    (.inl (congrArg (·[p]?) hre.resident)) (fun _ => ?_) fun _ => rfl
  · have hid : (w.pool.page g).id = p := (hids g).symm.trans hg.id_eq
    rcases hre.page_cases g with hsame | ⟨q, hq, hqg, hpage⟩
    · exact hsame
    · obtain rfl : q = p := (hw.filed q g hqg).2.symm.trans hid
      exact hpage.trans (Page.markClean_of_clean (Pool.clean_of_dirtyImage hqg (hp hq)))
  · show Q.storage.contents p = _
    by_cases hmem : p ∈ ps
    · rw [hstored.1 hmem, hp hmem]
      rfl
    · exact hstored.2 hmem

theorem Steady.pageStep_flushIn (hw : w.Steady) {ps : List PageId} (hps : ps.Nodup)
    (hcalled : p ∈ ps → d.WritesOut p) : PageStep w d p { w with pool := (w.pool.flushIn ps).1 } := by
  obtain ⟨Q, hQ, hclean, -⟩ := Pool.flushIn_sound hw.sound hw.filed (fun p f => hw.within) hps
  rw [hQ]
  by_cases hdirty : p ∈ ps ∧ w.pool.dirtyImage p ≠ none
  · obtain ⟨hmem, hne⟩ := hdirty
    obtain ⟨x, hx⟩ := Option.ne_none_iff_exists'.1 hne
    obtain ⟨f, hf, rfl, hd⟩ := Pool.dirtyImage_eq_some.1 hx
    exact .wroteOut f (hw.wroteOut_flushIn hclean hps hmem (hcalled hmem) hf hd)
  · exact .rests (hw.rests_of_flushIn hclean hps fun hmem => by_contra fun hne => hdirty ⟨hmem, hne⟩)

/-! ## Any deed -/

/-- **A page is written out, drafted, changed, settled or undone, or it rests.** -/
theorem Steady.pageStep (hw : w.Steady) (hd : d.Harmless w) : PageStep w d p (w.perform d) := by
  have hbegin : ∀ {t : TxnId} {k : Task}, w.tasks t = none → k.call.activity.images = [] →
      Rests w d p (w.setTask t (some k)) := by
    intro t k hnone himages
    have hgo : LetsGo (some t) w (w.setTask t (some k)) := by
      refine ⟨fun u hu => Function.update_of_ne (fun he => hu (by rw [he])) _ _, fun u m hu hm => ?_⟩
      obtain rfl := Option.some.inj hu
      obtain rfl : k = m := Option.some.inj ((Function.update_self t _ w.tasks).symm.trans hm)
      exact himages
    have hidle : InstallsNothing (some t) w := by
      intro u k' f hu hk'
      obtain rfl := Option.some.inj hu
      rw [hnone] at hk'
      cases hk'
    exact hgo.rests_of_frames hidle hw rfl rfl (Tables.grown_refl hw.sound) fun _ => rfl
  have haside : ∀ {w' : World}, w'.tasks = w.tasks → w'.pool.frames = w.pool.frames →
      w'.pool.resident = w.pool.resident → w.pool.storage.Grown w'.pool.storage →
      (∀ u, History.own u p w'.history = History.own u p w.history) → Rests w d p w' := fun htasks =>
    (letsGo_none htasks).rests_of_frames installsNothing_none hw
  cases d with
  | act a =>
    cases a with
    | request t r => exact .rests (hbegin hd.1 (Call.images_ofRequest t r))
    | edit t q rule => exact .rests (hbegin hd.1 rfl)
    | advance t =>
      show PageStep w _ p (w.advance t)
      rcases w.advance_cases t with ⟨hk, heq⟩ | ⟨k, rule, q, use, hk, hrule, ha, heq⟩ | ⟨k, hk, -, heq⟩
      · rw [heq]
        exact .rests (haside rfl rfl rfl (Tables.grown_refl hw.sound) fun _ => rfl)
      · rw [heq]
        exact hw.pageStep_editPage hk hrule ha
      · rw [heq]
        exact hw.pageStep_runSection hk
    | register file => exact .rests (haside rfl rfl rfl (Tables.grown_register hw.sound hd.1) fun _ => rfl)
  | flushPage q =>
    exact hw.pageStep_flushIn (List.nodup_singleton q) fun hp => (List.mem_singleton.1 hp).symm
  | flushAll => exact hw.pageStep_flushIn w.pool.nodup_residentPages fun _ => trivial
  | flushHeld t =>
    have hgo : LetsGo none w (w.perform (.flushHeld t)) := letsGo_none rfl
    by_cases hheld : (w.pool.locks.modeOf p t).isSome
    · exact .settled t (hw.settled_of_flushHeld hgo installsNothing_none rfl hheld (fun _ _ => rfl)
        (fun _ _ => .inr fun _ => rfl) (.inl rfl))
    · exact .rests (hw.rests_of_flushHeld hgo installsNothing_none rfl (Option.not_isSome_iff_eq_none.1 hheld)
        fun _ => rfl)
  | discard q => exact hd.elim
  | disturb disk => exact hd.elim

end PageSteps

end World

end PageEngine
