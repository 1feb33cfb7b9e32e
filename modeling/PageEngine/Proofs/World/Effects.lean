import PageEngine.Proofs.Pool.Flushing
import PageEngine.Proofs.World.Capacity
import PageEngine.Proofs.World.Deeds
import PageEngine.Proofs.World.Guarding

/-!
# `Proofs/World/Effects.lean` — what a section of a call does to frames, cache and stores

Most sections leave all three alone. The others fetch a page, write to a frame, install one, grow a file, or
end their transaction:

> **one effect for each section** (`Effect`), told by what the call was about to do.

What holds of calls is taken from `Accountable`, which is kept whoever writes pages out, and from the stores,
on which no call fails. Nothing is said of what the bytes of a page mean.
-/

set_option autoImplicit false

namespace PageEngine

open Std

/-! ## Fetching and installing -/

namespace Pool

/-- `Q` is `P` after the page `q` was asked for: clean pages may have left the cache, and a new frame was read for
`q` if it was not cached. -/
structure Fetched (P : Pool Tables) (q : PageId) (Q : Pool Tables) : Prop where
  storage : Q.storage = P.storage
  locks : Q.locks = P.locks
  size : P.frames.size ≤ Q.frames.size
  old : ∀ g : FrameId, g.index < P.frames.size → Q.page g = P.page g
  new : ∀ g : FrameId, P.frames.size ≤ g.index → g.index < Q.frames.size →
    Q.page g = Page.ofData q (P.storage.contents q) ∧ P.storage.HasPage q ∧
      P.resident[q]? = none ∧ Q.resident[q]? = some g
  cache : ∀ p : PageId, Q.resident[p]? = P.resident[p]? ∨
    (Q.resident[p]? = none ∧ ∃ f, P.resident[p]? = some f ∧ (P.page f).dirty = none) ∨
    (p = q ∧ ∃ g : FrameId, Q.resident[q]? = some g ∧ P.frames.size ≤ g.index ∧ g.index < Q.frames.size)

/-- `Q` is `P` after the frame `f` was marked for `t` and cached, or there was no room for it. -/
structure Marked (P : Pool Tables) (t : TxnId) (f : FrameId) (Q : Pool Tables) : Prop where
  storage : Q.storage = P.storage
  locks : Q.locks = P.locks
  size : Q.frames.size = P.frames.size
  self : Q.page f = (P.page f).markDirty t
  other : ∀ g : FrameId, g ≠ f → Q.page g = P.page g
  cache : ∀ p : PageId, p ≠ (P.page f).id → Q.resident[p]? = P.resident[p]? ∨
    (Q.resident[p]? = none ∧ ∃ g, P.resident[p]? = some g ∧ (P.page g).dirty = none)

section Effects

variable {P Q R : Pool Tables} {q : PageId} {t : TxnId} {f : FrameId}

theorem Shrunk.fetched (h : Shrunk P Q) (q : PageId) : Fetched P q Q where
  storage := h.storage
  locks := h.locks
  size := Nat.le_of_eq (by rw [h.frames])
  old g _ := page_congr h.frames g
  new g hg hlt := by
    rw [h.frames] at hlt
    omega
  cache p := (h.resident p).imp_right .inl

theorem Shrunk.fetched_readIn (h : Shrunk P R) (hnone : P.resident[q]? = none) (hq : P.storage.HasPage q) :
    Fetched P q ((R.addFrame (Page.ofData q (P.storage.contents q))).cache q R.nextFrame) := by
  have hframes : R.frames.size = P.frames.size := by rw [h.frames]
  have hsize : ((R.addFrame (Page.ofData q (P.storage.contents q))).cache q R.nextFrame).frames.size =
      P.frames.size + 1 := by
    rw [← hframes]
    exact Array.size_push _
  have hcached : ((R.addFrame (Page.ofData q (P.storage.contents q))).cache q R.nextFrame).resident[q]? =
      some R.nextFrame := by
    rw [resident_cache, if_pos rfl]
  refine ⟨h.storage, h.locks, by omega, fun g hg => ?_, fun g hg hlt => ?_, fun p => ?_⟩
  · exact (page_addFrame_of_lt (by rw [hframes]; exact hg) _).trans (page_congr h.frames g)
  · obtain rfl : g = R.nextFrame := by
      cases g
      simp only [nextFrame, FrameId.mk.injEq]
      simp only at hg hlt
      omega
    exact ⟨page_nextFrame R _, hq, hnone, hcached⟩
  · by_cases hp : p = q
    · exact .inr (.inr ⟨hp, R.nextFrame, hcached, Nat.le_of_eq hframes.symm,
        by rw [hsize, ← hframes]; exact Nat.lt_succ_self _⟩)
    · rw [resident_cache, if_neg hp]
      exact (h.resident p).imp_right .inl

theorem Fetched.filed (h : Fetched P q Q) (hP : P.Filed) : Q.Filed := by
  intro p g hg
  by_cases hlt : g.index < P.frames.size
  · refine ⟨Nat.lt_of_lt_of_le hlt h.size, ?_⟩
    rcases h.cache p with hkeep | ⟨hnone, -⟩ | ⟨rfl, g', hg', hnew, -⟩
    · rw [h.old g hlt]
      exact (hP p g (hkeep ▸ hg)).2
    · rw [hnone] at hg
      cases hg
    · obtain rfl := Option.some.inj (hg.symm.trans hg')
      omega
  · rcases h.cache p with hkeep | ⟨hnone, -⟩ | ⟨rfl, g', hg', hnew, hlt'⟩
    · exact absurd (hP p g (hkeep ▸ hg)).1 hlt
    · rw [hnone] at hg
      cases hg
    · obtain rfl := Option.some.inj (hg.symm.trans hg')
      exact ⟨hlt', congrArg Page.id (h.new _ hnew hlt').1⟩

theorem fetched_of_fetch {r : Except Error FrameId} (h : P.fetch q = (Q, r)) : Fetched P q Q := by
  rcases P.fetch_cases q with ⟨R, g, hR, -, -, hfetch⟩ | ⟨R, e, hR, hfetch⟩ | ⟨R, hR, hnone, hq, hfetch⟩
  all_goals
    rw [hfetch] at h
    obtain ⟨rfl, -⟩ := Prod.mk.inj h
  · exact hR.fetched q
  · exact hR.fetched q
  · exact hR.fetched_readIn hnone hq

/-- The frame that is fetched was cached, or it is read from the store. -/
theorem page_of_fetch (h : P.fetch q = (Q, .ok f)) :
    (P.resident[q]? = some f ∧ Q.page f = P.page f) ∨ Q.page f = Page.ofData q (P.storage.contents q) := by
  rcases P.fetch_cases q with ⟨R, g, hR, hg, -, hfetch⟩ | ⟨R, e, -, hfetch⟩ | ⟨R, -, -, -, hfetch⟩
  all_goals
    rw [hfetch, Prod.mk.injEq] at h
    obtain ⟨rfl, hf⟩ := h
  · rw [← Except.ok.inj hf]
    exact .inl ⟨hg, page_congr hR.frames g⟩
  · cases hf
  · rw [← Except.ok.inj hf]
    exact .inr (page_nextFrame R _)

theorem Shrunk.marked (hf : f.index < P.frames.size) (h : Shrunk (P.setPage f ((P.page f).markDirty t)) Q) :
    Marked P t f Q := by
  have hother : ∀ g, g ≠ f → (P.setPage f ((P.page f).markDirty t)).page g = P.page g := fun g hg => by
    rw [page_setPage_of_ne _ _ hg]
  refine ⟨h.storage, h.locks, (congrArg Array.size h.frames).trans (P.size_setPage f _), ?_,
    fun g hg => (page_congr h.frames g).trans (hother g hg), fun p hp => ?_⟩
  · rw [page_congr h.frames, page_setPage, if_pos ⟨rfl, hf⟩]
  · refine (h.resident p).imp_right fun ⟨hnone, g, hg, hclean⟩ => ⟨hnone, g, hg, ?_⟩
    by_cases hgf : g = f
    · rw [hgf, page_setPage, if_pos ⟨rfl, hf⟩] at hclean
      cases hclean
    · rwa [hother g hgf] at hclean

theorem Marked.cached (h : Marked P t f Q) : Marked P t f (Q.cache (P.page f).id f) :=
  ⟨h.storage, h.locks, h.size, h.self, h.other, fun p hp => by
    rw [resident_cache, if_neg hp]
    exact h.cache p hp⟩

theorem Marked.ids (h : Marked P t f Q) (g : FrameId) : (Q.page g).id = (P.page g).id := by
  by_cases hg : g = f
  · rw [hg, h.self]
    rfl
  · rw [h.other g hg]

/-- A frame is marked and cached, or it is marked and there is no room for it. -/
theorem install_marks (hf : f.index < P.frames.size)
    (hsole : P.resident[(P.page f).id]? = none ∨ P.resident[(P.page f).id]? = some f) (t : TxnId) :
    ∃ Q, Marked P t f Q ∧
      ((P.install t f = (Q, .ok ()) ∧ Q.resident[(P.page f).id]? = some f) ∨
        ∃ e, P.install t f = (Q, .error e) ∧ P.resident[(P.page f).id]? = none ∧
          Q.resident[(P.page f).id]? = none) := by
  rcases P.install_cases t f with ⟨hres, hinst⟩ | ⟨g, hres, hgf, -⟩ | ⟨hres, R, hR, ⟨e, hinst⟩ | hinst⟩
  · exact ⟨_, Shrunk.marked hf (.refl _), .inl ⟨hinst, hres⟩⟩
  · rcases hsole with hnone | hf
    · rw [hnone] at hres
      cases hres
    · exact absurd (Option.some.inj (hres.symm.trans hf)) hgf
  · refine ⟨R, Shrunk.marked hf hR, .inr ⟨e, hinst, hres, ?_⟩⟩
    rcases hR.resident (P.page f).id with hkeep | ⟨hnone, -⟩
    · exact hkeep.trans hres
    · exact hnone
  · exact ⟨_, (Shrunk.marked hf hR).cached, .inl ⟨hinst, by rw [resident_cache, if_pos rfl]⟩⟩

end Effects

end Pool

theorem Tables.grown_refl {d : Tables} (hd : d.Sound) : d.Grown d :=
  ⟨hd, fun _ _ h => h, fun _ h => h, fun _ _ => rfl⟩

/-! ## The effect of a section -/

/-- The call neither ends its transaction next nor installs a frame. -/
def Activity.Still : Activity → Prop
  | .start (.complete _) => False
  | .installing (_ :: _) => False
  | _ => True

theorem Activity.still_start {q : Request} (hq : ∀ commit, q ≠ .complete commit) : (Activity.start q).Still := by
  cases q with
  | complete commit => exact absurd rfl (hq commit)
  | _ => trivial

theorem Activity.Still.not_changes {a : Activity} (h : a.Still) (f : FrameId) : ¬a.Changes f := by
  rintro ⟨fs, rfl⟩
  exact h

theorem Activity.not_changes_start (q : Request) (f : FrameId) : ¬(Activity.start q).Changes f := by
  rintro ⟨fs, hfs⟩
  cases hfs

/-- What the next section of the task `k` of `t` does to the frames, the cache and the stores, when it turns the
pool `P` into `P'` and leaves `k'` of the task. -/
inductive Effect (P : Pool Tables) (t : TxnId) (k : Task) (P' : Pool Tables) (k' : Option Task) : Prop
  | quiet : k.call.activity.Still → P'.frames = P.frames → P'.resident = P.resident →
      P'.storage = P.storage → (∀ m, k' = some m → m.call.activity.images = []) → Effect P t k P' k'
  | fetches (q : PageId) (use : Use) : k.call.activity = .fetching q use → P.Fetched q P' →
      (∀ m, k' = some m → ∃ f, m.call.activity = .working q f use ∧ P'.resident[q]? = some f) →
      Effect P t k P' k'
  | drafts (q : PageId) (f : FrameId) (use : Use) (d : PageData) : k.call.activity = .working q f use →
      use.Writes → P' = P.setPage f ((P.page f).withData d) →
      (∃ m, k' = some m ∧ m.call.activity = .installing [f] ∧ m.draft = some d) → Effect P t k P' k'
  | installs (f : FrameId) : k.call.activity = .installing [f] → P.Marked t f P' →
      P'.resident[(P.page f).id]? = some f → (∃ m, k' = some m ∧ m.call.activity = .installing []) →
      Effect P t k P' k'
  | loses (f : FrameId) : k.call.activity = .installing [f] → P.Marked t f P' →
      (∃ e, (P.install t f).2 = .error e) → P.resident[(P.page f).id]? = none →
      P'.resident[(P.page f).id]? = none → k' = none → Effect P t k P' k'
  | grows (i : Insertion) : k.call.activity = .growing i → P'.frames = P.frames → P'.resident = P.resident →
      P'.locks = P.locks → P.storage.Grown P'.storage → (∀ m, k' = some m → m.call.activity.images = []) →
      Effect P t k P' k'
  | settles (commit : Bool) : k.call.activity = .start (.complete commit) →
      P' = (P.settlePages t commit).1 → (∀ m, k' = some m → m.call.activity.images = []) → Effect P t k P' k'

section Sections

variable {P P' : Pool Tables} {A : FrameId → Trail} {t : TxnId} {k : Task} {c : Call}

/-- The pool of an outcome is `P` up to its locks, and the call of it has no frame to go on with. -/
structure Aside (P : Pool Tables) (r : Pool Tables × Call) : Prop where
  frames : r.1.frames = P.frames
  resident : r.1.resident = P.resident
  storage : r.1.storage = P.storage
  images : r.2.result? = none → r.2.activity.images = []

theorem aside_same (hc : c.result? = none → c.activity.images = []) : Aside P (P, c) := ⟨rfl, rfl, rfl, hc⟩

theorem aside_finish (c : Call) (r : Except Error Answer) : Aside P (P, c.finish r) := aside_same nofun

theorem aside_attemptLock (c : Call) (P : Pool Tables) (p : PageId) (m : Mode) (use : Use) :
    Aside P (c.attemptLock P p m use) := by
  unfold Call.attemptLock
  split
  · refine ⟨rfl, rfl, rfl, fun _ => ?_⟩
    cases use <;> rfl
  · exact ⟨rfl, rfl, rfl, fun _ => rfl⟩
  · exact ⟨rfl, rfl, rfl, fun _ => rfl⟩

theorem aside_start (hd : P.storage.Sound) {q : Request} (hthrough : (Action.request t q).ThroughPool)
    (hq : ∀ b, q ≠ .complete b) : Aside P (c.start P q) := by
  have hpool := pool_start c P hq hthrough hd
  refine ⟨by rw [hpool], by rw [hpool], by rw [hpool], fun hlive => ?_⟩
  rcases start_cases c hd hthrough hq with ⟨res, hres⟩ | ⟨p, m, use, hact, -⟩ | ⟨i, hact, -⟩
  · rw [Call.result?_eq_some.2 hres] at hlive
    cases hlive
  · rw [hact]
    rfl
  · rw [hact]
    rfl

theorem Task.call_live {k k' : Task} {Q : Pool Tables} (h : k.after Q c = some k') : c.result? = none := by
  rw [← Option.not_isSome_iff_eq_none]
  intro hsome
  rw [Task.after, if_pos hsome] at h
  cases h

theorem Aside.effect (h : Aside P (k.call.step P)) (hstill : k.call.activity.Still) :
    Effect P t k (k.call.step P).1 (k.after (k.call.step P).1 (k.call.step P).2) := by
  refine .quiet hstill h.frames h.resident h.storage fun m hm => ?_
  rw [Task.call_of_after hm]
  exact h.images (Task.call_live hm)

/-- A call that works on a fetched page writes to it and goes on to install it, or leaves everything alone. -/
theorem useFrame_cases (c : Call) (P : Pool Tables) (p : PageId) (f : FrameId) (use : Use) :
    Aside P (c.useFrame P p f use) ∨ use.Writes ∧ ∃ d tuple, c.useFrame P p f use =
      (P.setPage f ((P.page f).withData d), { c with tuple }.changed [f]) := by
  cases use with
  | holdLock => exact .inl (aside_finish c _)
  | deliver => exact .inl (aside_finish c _)
  | collect x pages next rows => exact .inl (aside_same fun _ => c.images_collectNext x pages (next + 1) _)
  | place i =>
    simp only [Call.useFrame, Call.place]
    split
    · exact .inr ⟨trivial, _, _, rfl⟩
    · split
      · exact .inl (aside_same fun _ => c.images_tryNext P _)
      · exact .inl (aside_same fun _ => rfl)
  | remove x slot =>
    simp only [Call.useFrame, Call.remove]
    split
    · exact .inr ⟨trivial, _, c.tuple, rfl⟩
    · exact .inl (aside_finish c _)

theorem effect_of_fetching {p : PageId} {use : Use} (ha : k.call.activity = .fetching p use) :
    Effect P t k (k.call.step P).1 (k.after (k.call.step P).1 (k.call.step P).2) := by
  rcases hfetch : P.fetch p with ⟨Q, r⟩
  have hQ := Pool.fetched_of_fetch hfetch
  cases r with
  | error e =>
    have hstep : k.call.step P = (Q, k.call.fail e) := by simp only [Call.step, ha, hfetch]
    rw [hstep]
    exact .fetches p use ha hQ fun m hm => by cases Task.call_live hm
  | ok f =>
    have hstep : k.call.step P = (Q, k.call.goOn (.working p f use)) := by simp only [Call.step, ha, hfetch]
    rw [hstep]
    refine .fetches p use ha hQ fun m hm => ⟨f, ?_, Pool.resident_of_fetch hfetch⟩
    rw [Task.call_of_after hm]
    rfl

theorem effect_of_working {p : PageId} {f : FrameId} {use : Use} (hk : TaskFits P A t k)
    (ha : k.call.activity = .working p f use) :
    Effect P t k (k.call.step P).1 (k.after (k.call.step P).1 (k.call.step P).2) := by
  have hstep : k.call.step P = k.call.useFrame P p f use := by simp only [Call.step, ha]
  rcases useFrame_cases k.call P p f use with haside | ⟨hw, d, tuple, hdraft⟩
  · exact (hstep ▸ haside : Aside P (k.call.step P)).effect (by rw [ha]; trivial)
  · have hact := hk.activity
    rw [ha] at hact
    have hlt := (hact.2.2 hw).index_lt
    have hchanged : { k.call with tuple }.changed [f] = { k.call with tuple }.goOn (.installing [f]) := by
      simp only [Call.changed, hk.installs, if_true]
    rw [hstep, hdraft, hchanged]
    refine .drafts p f use d ha hw rfl ⟨_, rfl, rfl, ?_⟩
    simp only [Task.nextDraft, ha, Pool.page_setPage, hlt, and_self, if_true]
    rfl

theorem effect_of_growing {i : Insertion} (hd : P.storage.Sound) (hreg : Registered P i)
    (ha : k.call.activity = .growing i) :
    Effect P t k (k.call.step P).1 (k.after (k.call.step P).1 (k.call.step P).2) := by
  have hgrown : ∀ {disk r}, i.heap.append P.storage.disk i.pages = (disk, r) →
      P.storage.Grown { P.storage with disk } := by
    intro disk r happ
    rcases Tables.append_cases hd hreg rfl i.pages with ⟨e, hcase⟩ | ⟨-, hcase⟩ | ⟨-, -, disk', hcase, hrw⟩
    · obtain ⟨rfl, -⟩ := Prod.mk.inj (happ.symm.trans hcase)
      exact Tables.grown_refl hd
    · obtain ⟨rfl, -⟩ := Prod.mk.inj (happ.symm.trans hcase)
      exact Tables.grown_refl hd
    · obtain ⟨rfl, -⟩ := Prod.mk.inj (happ.symm.trans hcase)
      exact hrw.grown
  rcases happ : i.heap.append P.storage.disk i.pages with ⟨disk, r⟩
  cases r with
  | error e =>
    have hstep : k.call.step P = ({ P with storage := { P.storage with disk } }, k.call.fail e) := by
      simp only [Call.step, ha, happ]
    rw [hstep]
    exact .grows i ha rfl rfl rfl (hgrown happ) fun m hm => by cases Task.call_live hm
  | ok u =>
    have hstep : k.call.step P = ({ P with storage := { P.storage with disk } }, k.call.goOn (.counting i)) := by
      simp only [Call.step, ha, happ]
    rw [hstep]
    exact .grows i ha rfl rfl rfl (hgrown happ) fun m hm => by rw [Task.call_of_after hm]; rfl

theorem effect_of_installing {f : FrameId} {fs : List FrameId} (hk : TaskFits P A t k)
    (ha : k.call.activity = .installing (f :: fs)) :
    Effect P t k (k.call.step P).1 (k.after (k.call.step P).1 (k.call.step P).2) := by
  obtain ⟨hone, hg⟩ := hk.activity.grip ⟨fs, ha⟩
  rw [ha] at hone
  obtain rfl : fs = [] := (List.cons.inj (Activity.installing.inj hone)).2
  obtain ⟨Q, hQ, ⟨hinst, hres⟩ | ⟨e, hinst, hnone, hres⟩⟩ := Pool.install_marks hg.index_lt hg.resident t
  · have hstep : k.call.step P = (Q, k.call.goOn (.installing [])) := by
      simp only [Call.step, ha, hk.txn, hinst]
    rw [hstep]
    exact .installs f ha hQ hres ⟨_, rfl, rfl⟩
  · have hstep : k.call.step P = (Q, k.call.fail e) := by simp only [Call.step, ha, hk.txn, hinst]
    rw [hstep]
    exact .loses f ha hQ ⟨e, by rw [hinst]⟩ hnone hres rfl

/-- **Every section has one of the effects.** -/
theorem effect_of_step (hk : TaskFits P A t k) (hd : P.storage.Sound)
    (hreg : ∀ i, k.call.activity = .growing i → Registered P i) :
    Effect P t k (k.call.step P).1 (k.after (k.call.step P).1 (k.call.step P).2) := by
  have hfits := hk.activity
  cases ha : k.call.activity with
  | start q =>
    rw [ha] at hfits
    have hstep : k.call.step P = k.call.start P q := by simp only [Call.step, ha]
    by_cases hend : ∃ commit, q = .complete commit
    · obtain ⟨commit, rfl⟩ := hend
      refine .settles commit ha ?_ fun m hm => ?_
      · rw [hstep]
        simp only [Call.start, hk.txn]
      · rw [Task.call_of_after hm, hstep]
        rfl
    · have hq : ∀ commit, q ≠ .complete commit := fun commit hc => hend ⟨commit, hc⟩
      exact (hstep ▸ aside_start hd hfits.1 hq : Aside P (k.call.step P)).effect (ha ▸ Activity.still_start hq)
  | locking p m use =>
    refine Aside.effect ?_ (by rw [ha]; trivial)
    simp only [Call.step, ha]
    exact aside_attemptLock k.call P p m use
  | sleeping ticket p m use =>
    refine Aside.effect ?_ (by rw [ha]; trivial)
    simp only [Call.step, ha]
    split
    · exact aside_same fun _ => by rw [ha]; rfl
    · exact aside_attemptLock k.call P p m use
  | fetching p use => exact effect_of_fetching ha
  | working p f use => exact effect_of_working hk ha
  | dropping i =>
    refine Aside.effect ?_ (by rw [ha]; trivial)
    simp only [Call.step, ha, Pool.releasePage]
    cases (P.locks.release i.page k.call.txn).2 with
    | error e => exact ⟨rfl, rfl, rfl, fun _ => rfl⟩
    | ok u => exact ⟨rfl, rfl, rfl, fun _ => k.call.images_tryNext _ _⟩
  | counting i =>
    refine Aside.effect ?_ (by rw [ha]; trivial)
    simp only [Call.step, ha]
    split
    · exact aside_finish k.call _
    · exact aside_same fun _ => k.call.images_tryNext P _
  | growing i => exact effect_of_growing hd (hreg i ha) ha
  | installing fs =>
    cases fs with
    | nil =>
      refine Aside.effect ?_ (by rw [ha]; trivial)
      simp only [Call.step, ha]
      exact aside_finish k.call _
    | cons f fs => exact effect_of_installing hk ha
  | releasing commit res =>
    refine Aside.effect ?_ (by rw [ha]; trivial)
    simp only [Call.step, ha]
    exact ⟨rfl, rfl, rfl, fun _ => rfl⟩
  | ending commit res =>
    refine Aside.effect ?_ (by rw [ha]; trivial)
    simp only [Call.step, ha]
    exact ⟨rfl, rfl, rfl, fun hlive => by cases hlive⟩
  | finished res =>
    refine Aside.effect ?_ (by rw [ha]; trivial)
    simp only [Call.step, ha]
    exact aside_same fun hlive => by rw [Call.result?_eq_some.2 ha] at hlive; cases hlive

end Sections

end PageEngine
