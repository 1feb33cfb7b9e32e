import PageEngine.Proofs.Pool.Completion
import PageEngine.Proofs.World.Basic

/-!
# `Proofs/World/Invariant.lean` — what holds between any two sections

Three copies of a page are kept apart: the bytes in the store, the before-image and the data of its
cached frame. `PoolInv` ties them to the history and to the locks:

> **the store holds what was committed, a before-image holds what the store holds, and the data of a
> frame differs from it only for the owner of a change**, who holds the page exclusively.

A frame that a call has changed and not installed yet is the one exception; these frames are given by a
predicate. What a call relies on while others run is `Rely`, and `TaskInv`, which says of each call what
it has found out so far, is kept by everybody who leaves to the transaction what `Rely` says.
-/

set_option autoImplicit false

namespace PageEngine

open Std

/-! ## Pages -/

/-- The frame is an image of the page, with the contents of the store as its before-image. -/
structure Image (P : Pool Tables) (p : PageId) (f : FrameId) : Prop where
  index_lt : f.index < P.frames.size
  id_eq : (P.page f).id = p
  hasPage : P.storage.HasPage p
  before_eq : (P.page f).beforeImage = P.storage.contents p

/-- What a transaction should find in a page, from its own changes and the store. -/
def shown (P : Pool Tables) (h : History) (t : TxnId) (p : PageId) : PageData :=
  (History.own t p h).getD (P.storage.contents p)

/-- The cached frame of a page: it shows the store, or the change of the transaction that has dirtied
it. The frames of `ch` are about to be installed, and their data is not constrained. -/
structure Cached (ch : FrameId → Prop) (P : Pool Tables) (h : History) (p : PageId) (f : FrameId) :
    Prop where
  image : Image P p f
  clean : (P.page f).dirty = none → ¬ch f → (P.page f).data = P.storage.contents p
  dirty : ∀ t, (P.page f).dirty = some t →
    P.locks.modeOf p t = some .exclusive ∧
    ∃ d, History.own t p h = some d ∧ (¬ch f → (P.page f).data = d)

/-- What holds of a pool after the events of a history. -/
structure PoolInv (origin : PageId → PageData) (ch : FrameId → Prop) (P : Pool Tables) (h : History) :
    Prop where
  sound : P.storage.Sound
  locks : P.locks.Consistent
  stored : ∀ p, P.storage.contents p = History.committed origin p h
  cached : ∀ p f, P.resident[p]? = some f → Cached ch P h p f
  /-- A change that is not committed yet is in the cache. -/
  owned : ∀ t p d, History.own t p h = some d →
    ∃ f, P.resident[p]? = some f ∧ (P.page f).dirty = some t

/-! ## Calls -/

def Registered (P : Pool Tables) (i : Insertion) : Prop :=
  P.storage.catalog[i.heap.table]? = some (.heap i.heap)

def Use.Writes : Use → Prop
  | .place _ => True
  | .remove .. => True
  | _ => False

/-- What a call that wants the page `p` knows. An insert that did not hold the page before has not
changed it. -/
def UseInv (P : Pool Tables) (h : History) (t : TxnId) (p : PageId) : Use → Prop
  | .place i => i.page = p ∧ Registered P i ∧ (i.heldBefore = false → History.own t p h = none)
  | _ => True

/-- A frame of `p` that a call of `t` has fetched. -/
structure Handed (P : Pool Tables) (h : History) (t : TxnId) (p : PageId) (f : FrameId) : Prop where
  image : Image P p f
  held : (P.locks.modeOf p t).isSome
  data_eq : (P.page f).data = shown P h t p

/-- A frame of `p` that `t` may change: nobody else has the page. -/
structure Writable (P : Pool Tables) (t : TxnId) (p : PageId) (f : FrameId) : Prop where
  exclusive : P.locks.modeOf p t = some .exclusive
  resident : P.resident[p]? = none ∨ P.resident[p]? = some f
  dirty : (P.page f).dirty = none ∨ (P.page f).dirty = some t

/-- A frame that a call of `t` has changed and not installed yet. -/
structure Drafted (P : Pool Tables) (t : TxnId) (f : FrameId) (d : PageData) : Prop where
  image : Image P (P.page f).id f
  writable : Writable P t (P.page f).id f
  data_eq : (P.page f).data = d

/-- What a call of `t` knows at its next section; `edits` says that its client overwrites the page that
it fetches, and `draft` is what it has written. -/
def ActivityInv (P : Pool Tables) (h : History) (t : TxnId) (edits : Bool)
    (draft : Option PageData) : Activity → Prop
  | .start r =>
    (Action.request t r).ThroughPool ∧ (edits = true → ∃ p, r = .get p .write)
  | .locking p m use =>
    UseInv P h t p use ∧ (use.Writes ∨ edits = true → m = .exclusive)
  | .sleeping _ p m use =>
    UseInv P h t p use ∧ (use.Writes ∨ edits = true → m = .exclusive)
  | .fetching p use =>
    UseInv P h t p use ∧ (P.locks.modeOf p t).isSome ∧
      (use.Writes ∨ edits = true → P.locks.modeOf p t = some .exclusive)
  | .working p f use =>
    edits = false ∧ UseInv P h t p use ∧ Handed P h t p f ∧ (use.Writes → Writable P t p f)
  | .dropping i => Registered P i ∧ History.own t i.page h = none
  | .counting i => Registered P i
  | .growing i => Registered P i
  | .installing [] => True
  | .installing [f] => ∃ d, draft = some d ∧ Drafted P t f d
  | .installing (_ :: _ :: _) => False
  | .releasing .. => ∀ p, History.own t p h = none
  | .ending .. => ∀ p, History.own t p h = none
  | .finished _ => True

/-- A call has one frame to install, or none any more. -/
theorem ActivityInv.installing_cases {P : Pool Tables} {h : History} {t : TxnId} {edits : Bool}
    {draft : Option PageData} {fs : List FrameId}
    (ha : ActivityInv P h t edits draft (.installing fs)) :
    fs = [] ∨ ∃ f d, fs = [f] ∧ draft = some d ∧ Drafted P t f d := by
  cases fs with
  | nil => exact .inl rfl
  | cons f fs =>
    cases fs with
    | nil =>
      obtain ⟨d, hdraft, hd⟩ := ha
      exact .inr ⟨f, d, rfl, hdraft, hd⟩
    | cons g gs => exact ha.elim

/-- What holds of a call in flight. -/
structure TaskInv (P : Pool Tables) (h : History) (t : TxnId) (k : Task) : Prop where
  txn : k.call.txn = t
  installs : k.call.installs = true
  activity : ActivityInv P h t k.rule.isSome k.draft k.call.activity

/-- The frame that a call is about to install. -/
def Activity.Changes (a : Activity) (f : FrameId) : Prop := ∃ fs, a = .installing (f :: fs)

namespace World

/-- The frame is about to be installed by a call of `t`. -/
def ChangedBy (w : World) (t : TxnId) (f : FrameId) : Prop :=
  ∃ k, w.tasks t = some k ∧ k.call.activity.Changes f

/-- What holds between any two sections. -/
structure Inv (origin : PageId → PageData) (w : World) : Prop where
  pool : PoolInv origin (fun f => ∃ t, w.ChangedBy t f) w.pool w.history
  tasks : ∀ t k, w.tasks t = some k → TaskInv w.pool w.history t k

end World

/-! ## What a call relies on -/

/-- What others leave to `u`: its modes and its changes, the frames and the contents of the pages that
it holds, and the place in the cache of those that it holds exclusively, except that they can be
evicted. -/
structure Rely (u : TxnId) (P P' : Pool Tables) (h h' : History) : Prop where
  modes : ∀ p, P'.locks.modeOf p u = P.locks.modeOf p u
  size : P.frames.size ≤ P'.frames.size
  frames : ∀ f, f.index < P.frames.size → (P.locks.modeOf (P.page f).id u).isSome →
    P'.page f = P.page f
  resident : ∀ p : PageId, P.locks.modeOf p u = some .exclusive →
    P'.resident[p]? = P.resident[p]? ∨ P'.resident[p]? = none
  contents : ∀ p, P.storage.HasPage p → (P.locks.modeOf p u).isSome →
    P'.storage.contents p = P.storage.contents p
  hasPage : ∀ p, P.storage.HasPage p → P'.storage.HasPage p
  catalog : ∀ (t : TableId) (s : Store), P.storage.catalog[t]? = some s →
    P'.storage.catalog[t]? = some s
  own : ∀ p, History.own u p h' = History.own u p h

section Rely

variable {u : TxnId} {P P' : Pool Tables} {h h' : History} {p : PageId} {f : FrameId}

theorem Rely.page_eq (hr : Rely u P P' h h') (hi : Image P p f) (hp : (P.locks.modeOf p u).isSome) :
    P'.page f = P.page f := by
  refine hr.frames f hi.index_lt ?_
  rw [hi.id_eq]
  exact hp

theorem Image.rely (hi : Image P p f) (hp : (P.locks.modeOf p u).isSome) (hr : Rely u P P' h h') :
    Image P' p f where
  index_lt := Nat.lt_of_lt_of_le hi.index_lt hr.size
  id_eq := by rw [hr.page_eq hi hp, hi.id_eq]
  hasPage := hr.hasPage p hi.hasPage
  before_eq := by rw [hr.page_eq hi hp, hi.before_eq, hr.contents p hi.hasPage hp]

theorem Handed.rely (hh : Handed P h u p f) (hr : Rely u P P' h h') : Handed P' h' u p f where
  image := hh.image.rely hh.held hr
  held := by rw [hr.modes]; exact hh.held
  data_eq := by
    rw [hr.page_eq hh.image hh.held, hh.data_eq, shown, shown, hr.own,
      hr.contents p hh.image.hasPage hh.held]

theorem Writable.held (hw : Writable P u p f) : (P.locks.modeOf p u).isSome := by
  rw [hw.exclusive]
  rfl

theorem Writable.rely (hw : Writable P u p f) (hi : Image P p f) (hr : Rely u P P' h h') :
    Writable P' u p f where
  exclusive := by rw [hr.modes, hw.exclusive]
  resident := by
    rcases hr.resident p hw.exclusive with hkeep | hnone
    · rw [hkeep]
      exact hw.resident
    · exact .inl hnone
  dirty := by
    rw [hr.page_eq hi hw.held]
    exact hw.dirty

theorem Drafted.rely {d : PageData} (hd : Drafted P u f d) (hr : Rely u P P' h h') :
    Drafted P' u f d := by
  have heq := hr.page_eq hd.image hd.writable.held
  refine ⟨?_, ?_, ?_⟩
  · rw [heq]
    exact hd.image.rely hd.writable.held hr
  · rw [heq]
    exact hd.writable.rely hd.image hr
  · rw [heq, hd.data_eq]

theorem UseInv.rely {use : Use} (hu : UseInv P h u p use) (hr : Rely u P P' h h') :
    UseInv P' h' u p use := by
  cases use with
  | place i =>
    obtain ⟨hp, hreg, hown⟩ := hu
    exact ⟨hp, hr.catalog _ _ hreg, fun hb => (hr.own p).trans (hown hb)⟩
  | holdLock => trivial
  | deliver => trivial
  | collect h pages next rows => trivial
  | remove h slot => trivial

theorem ActivityInv.rely {edits : Bool} {draft : Option PageData} {a : Activity}
    (ha : ActivityInv P h u edits draft a) (hr : Rely u P P' h h') :
    ActivityInv P' h' u edits draft a := by
  cases a with
  | start r => exact ha
  | locking p m use => exact ⟨ha.1.rely hr, ha.2⟩
  | sleeping ticket p m use => exact ⟨ha.1.rely hr, ha.2⟩
  | fetching p use =>
    obtain ⟨huse, hheld, hX⟩ := ha
    refine ⟨huse.rely hr, ?_, ?_⟩
    · rw [hr.modes]
      exact hheld
    · intro hw
      rw [hr.modes]
      exact hX hw
  | working p f use =>
    obtain ⟨he, huse, hhand, hw⟩ := ha
    exact ⟨he, huse.rely hr, hhand.rely hr, fun hwr => (hw hwr).rely hhand.image hr⟩
  | dropping i => exact ⟨hr.catalog _ _ ha.1, (hr.own _).trans ha.2⟩
  | counting i => exact hr.catalog _ _ ha
  | growing i => exact hr.catalog _ _ ha
  | installing fs =>
    rcases ha.installing_cases with rfl | ⟨f, d, rfl, hdraft, hd⟩
    · trivial
    · exact ⟨d, hdraft, hd.rely hr⟩
  | releasing commit pages => exact fun p => (hr.own p).trans (ha p)
  | ending commit r => exact fun p => (hr.own p).trans (ha p)
  | finished r => trivial

/-- **What is true of a call stays true while others run.** -/
theorem TaskInv.rely {k : Task} (hk : TaskInv P h u k) (hr : Rely u P P' h h') : TaskInv P' h' u k :=
  ⟨hk.txn, hk.installs, hk.activity.rely hr⟩

end Rely

/-- A frame that `t` is about to install belongs to a page that `t` holds exclusively. -/
theorem TaskInv.exclusive_of_changes {P : Pool Tables} {h : History} {t : TxnId} {k : Task}
    (hk : TaskInv P h t k) {f : FrameId} (hf : k.call.activity.Changes f) :
    f.index < P.frames.size ∧ P.locks.modeOf (P.page f).id t = some .exclusive := by
  obtain ⟨fs, hfs⟩ := hf
  have ha := hk.activity
  rw [hfs] at ha
  rcases ha.installing_cases with hnil | ⟨g, d, hone, -, hd⟩
  · cases hnil
  · cases hone
    exact ⟨hd.image.index_lt, hd.writable.exclusive⟩

/-! ## One section -/

/-- The pool and the history go on as transaction `t` may let them. -/
structure Keeps (origin : PageId → PageData) (t : TxnId) (ch' : FrameId → Prop) (P : Pool Tables)
    (h : History) (P' : Pool Tables) (h' : History) : Prop where
  pool : PoolInv origin ch' P' h'
  rely : ∀ u, u ≠ t → Rely u P P' h h'

/-- What a section of `t` does to a pool and a history, and what it leaves of its call. The frames of
`others` are about to be installed by other transactions. -/
structure Serves (origin : PageId → PageData) (t : TxnId) (others : FrameId → Prop)
    (P : Pool Tables) (h : History) (P' : Pool Tables) (h' : History) (k : Option Task) : Prop where
  keeps : Keeps origin t (fun f => others f ∨ ∃ k', k = some k' ∧ k'.call.activity.Changes f) P h P' h'
  task : ∀ k', k = some k' → TaskInv P' h' t k'

/-- Nobody is about to install a frame of a page that `t` holds. -/
def Unclaimed (ch : FrameId → Prop) (P : Pool Tables) (t : TxnId) : Prop :=
  ∀ f, ch f → f.index < P.frames.size ∧ P.locks.modeOf (P.page f).id t = none

namespace World

/-- The frame is about to be installed by another transaction than `t`. -/
def ChangedByOther (w : World) (t : TxnId) (f : FrameId) : Prop := ∃ u, u ≠ t ∧ w.ChangedBy u f

theorem changedBy_update (w : World) (t : TxnId) (P : Pool Tables) (h : History) (k : Option Task)
    (f : FrameId) :
    (∃ u, ChangedBy { pool := P, tasks := Function.update w.tasks t k, history := h } u f) ↔
      w.ChangedByOther t f ∨ ∃ k', k = some k' ∧ k'.call.activity.Changes f := by
  constructor
  · rintro ⟨u, k', hk', hc⟩
    by_cases hu : u = t
    · subst hu
      exact .inr ⟨k', by simpa using hk', hc⟩
    · exact .inl ⟨u, hu, k', by simpa [hu] using hk', hc⟩
  · rintro (⟨u, hu, k', hk', hc⟩ | ⟨k', hk', hc⟩)
    · exact ⟨u, k', by simpa [hu] using hk', hc⟩
    · exact ⟨t, k', by simpa using hk', hc⟩

/-- **The invariant is kept by a section that serves its call.** -/
theorem Inv.serve {origin : PageId → PageData} {w : World} (hw : w.Inv origin) {t : TxnId}
    {P : Pool Tables} {h : History} {k : Option Task}
    (hs : Serves origin t (w.ChangedByOther t) w.pool w.history P h k) :
    Inv origin { pool := P, tasks := Function.update w.tasks t k, history := h } where
  pool := by
    simp only [changedBy_update]
    exact hs.keeps.pool
  tasks u k' hk' := by
    by_cases hu : u = t
    · subst hu
      exact hs.task k' (by simpa using hk')
    · exact (hw.tasks u k' (by simpa [hu] using hk')).rely (hs.keeps.rely u hu)

theorem Inv.unclaimed {origin : PageId → PageData} {w : World} (hw : w.Inv origin) (t : TxnId) :
    Unclaimed (w.ChangedByOther t) w.pool t := by
  rintro f ⟨u, hu, k, hk, hc⟩
  obtain ⟨hlt, hX⟩ := (hw.tasks u k hk).exclusive_of_changes hc
  refine ⟨hlt, ?_⟩
  rw [← Option.not_isSome_iff_eq_none]
  intro hheld
  exact hu (LockTable.eq_of_modeOf_exclusive hX hheld).symm

end World

end PageEngine
