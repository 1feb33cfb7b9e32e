import PageEngine.Proofs.Pool.Faults
import PageEngine.Proofs.World.Invariant

/-!
# `Proofs/World/Trails.lean` — who has changed a frame

Here the files below the stores may fail and change in any way, and clients may flush and discard pages
at any time. What a page holds can then not be told from a history. It can still be told **who** has
changed it: beside a world its frames get trails, which list the authors of the changes since the frame was
last clean with its contents as before-image, as it is when it was read, restored or committed.

A commit that fails leaves frames behind, and the locks go in spite of it. So a trail also lists the
transactions that have abandoned the frame in this way. What ties trails to locks is `Accounted`:

> **whoever has changed a cached frame, or marked it, holds its page exclusively or has abandoned it.**
-/

set_option autoImplicit false

namespace PageEngine

open Std

/-! ## Trails -/

/-- The page is clean, with its contents as before-image. -/
def Page.settled (x : Page) : Bool := x.isClean && decide (x.data = x.beforeImage)

theorem Page.settled_iff {x : Page} : x.settled = true ↔ x.dirty = none ∧ x.data = x.beforeImage := by
  simp [settled]

theorem Page.settled_of_dirty {x : Page} {t : TxnId} (h : x.dirty = some t) : x.settled = false := by
  simp [settled, isClean, h]

/-- What has happened to a frame since it was last settled. -/
structure Trail where
  /-- The transactions that have changed its bytes. -/
  authors : List TxnId := []
  /-- The transactions whose failed commits held its page and left it unsettled. -/
  abandoned : List TxnId := []

namespace Trail

/-- The trail after a step of `who` that finds the page `x` and leaves it as `x'`. The step may bring back
the before-image, or be a commit of somebody who holds the page and fail. -/
def next (r : Trail) (who : Option TxnId) (x x' : Page) (restored failed : Bool) : Trail :=
  if restored || (decide (x'.data = x.data) && !x.settled && x'.settled) then {}
  else
    { authors := if x'.data = x.data then r.authors else who.toList ++ r.authors
      abandoned := if failed && !x'.settled then who.toList ++ r.abandoned else r.abandoned }

theorem next_self (r : Trail) (who : Option TxnId) (x : Page) : r.next who x x false false = r := by
  simp [next]

theorem next_default (who : Option TxnId) (restored failed : Bool) :
    next {} who default default restored failed = {} := by
  have hsettled : (default : Page).settled = true := Page.settled_iff.2 ⟨rfl, rfl⟩
  simp [next, hsettled]

/-- A step begins a new trail, or it adds its own transaction at most. -/
theorem next_cases (r : Trail) (who : Option TxnId) (x x' : Page) (restored failed : Bool) :
    (r.next who x x' restored failed = {} ∧ (restored = true ∨ x'.settled = true)) ∨
    (restored = false ∧ (x'.data = x.data → x'.settled = true → x.settled = true) ∧
      (∀ u, u ∈ (r.next who x x' restored failed).authors ↔
        u ∈ r.authors ∨ (who = some u ∧ x'.data ≠ x.data)) ∧
      ∀ u, u ∈ (r.next who x x' restored failed).abandoned ↔
        u ∈ r.abandoned ∨ (who = some u ∧ failed = true ∧ x'.settled = false)) := by
  by_cases hnew : (restored || (decide (x'.data = x.data) && !x.settled && x'.settled)) = true
  · refine .inl ⟨by rw [next, if_pos hnew], ?_⟩
    rcases Bool.or_eq_true_iff.1 hnew with h | h
    · exact .inl h
    · exact .inr (Bool.and_eq_true_iff.1 h).2
  · have hr : restored = false := by simpa using fun h : restored = true => hnew (by simp [h])
    refine .inr ⟨hr, ?_, ?_, ?_⟩
    · intro hdata hsettled
      by_contra hx
      exact hnew (by simp [hdata, hsettled, hx])
    · intro u
      rw [next, if_neg hnew]
      by_cases hdata : x'.data = x.data
      · simp [hdata]
      · simp only [hdata, if_false, List.mem_append, Option.mem_toList, ne_eq, not_false_eq_true,
          and_true]
        exact or_comm
    · intro u
      rw [next, if_neg hnew]
      cases hf : (failed && !x'.settled) with
      | false =>
        simp only [Bool.false_eq_true, if_false]
        refine ⟨.inl, fun h => h.resolve_right ?_⟩
        rintro ⟨-, hfailed, hx⟩
        simp [hfailed, hx] at hf
      | true =>
        simp only [if_true, List.mem_append, Option.mem_toList]
        have hboth : failed = true ∧ x'.settled = false := by simpa using hf
        simp only [hboth, and_self, and_true]
        exact or_comm

end Trail

/-! ## What a step may do to a frame -/

/-- `u` has changed the frame or marked it. -/
def Claims (r : Trail) (x : Page) (u : TxnId) : Prop := u ∈ r.authors ∨ x.dirty = some u

/-- Whoever has changed the frame or marked it holds its page exclusively, or has abandoned it. -/
def Accounted (L : LockTable) (r : Trail) (x : Page) : Prop :=
  ∀ u, Claims r x u → u ∈ r.abandoned ∨ L.modeOf x.id u = some .exclusive

/-- A step of `who` changes the data of a frame and marks it only if it holds the page exclusively. -/
structure Touched (who : Option TxnId) (L : LockTable) (x x' : Page) : Prop where
  id : x'.id = x.id
  data : x'.data = x.data ∨ ∃ t, who = some t ∧ L.modeOf x.id t = some .exclusive
  dirty : x'.dirty = none ∨ x'.dirty = x.dirty ∨
    ∃ t, who = some t ∧ x'.dirty = some t ∧ L.modeOf x.id t = some .exclusive

section Touching

variable {who : Option TxnId} {L : LockTable} {r : Trail} {x x' : Page} {restored failed : Bool}

theorem Touched.refl (who : Option TxnId) (L : LockTable) (x : Page) : Touched who L x x :=
  ⟨rfl, .inl rfl, .inr (.inl rfl)⟩

/-- A settled frame with a new trail is claimed by nobody. -/
theorem not_claims_of_settled (hx : x'.settled = true) (u : TxnId) : ¬Claims {} x' u := by
  rintro (h | h)
  · exact List.not_mem_nil h
  · rw [(Page.settled_iff.1 hx).1] at h
    cases h

/-- A claim after a step was one before, or is one of the transaction whose step it was. -/
theorem Touched.claims (ht : Touched who L x x') (hr : restored = true → x'.settled = true) {u : TxnId}
    (hu : Claims (r.next who x x' restored failed) x' u) :
    (∀ v ∈ r.abandoned, v ∈ (r.next who x x' restored failed).abandoned) ∧
    (Claims r x u ∨ who = some u ∧ L.modeOf x.id u = some .exclusive) := by
  rcases r.next_cases who x x' restored failed with ⟨hnext, hsettled⟩ | ⟨-, -, hauthors, habandoned⟩
  · rw [hnext] at hu
    exact absurd hu (not_claims_of_settled (hsettled.elim hr fun h => h) u)
  · refine ⟨fun v hv => (habandoned v).2 (.inl hv), ?_⟩
    rcases hu with hu | hu
    · rcases (hauthors u).1 hu with hold | ⟨hwho, hdata⟩
      · exact .inl (.inl hold)
      · obtain ⟨t, ht', hX⟩ := ht.data.resolve_left hdata
        obtain rfl := Option.some.inj (hwho.symm.trans ht')
        exact .inr ⟨hwho, hX⟩
    · rcases ht.dirty with hnone | hsame | ⟨t, hwho, hmark, hX⟩
      · rw [hnone] at hu
        cases hu
      · exact .inl (.inr (hsame.symm.trans hu))
      · obtain rfl := Option.some.inj (hmark.symm.trans hu)
        exact .inr ⟨hwho, hX⟩

theorem Accounted.next (h : Accounted L r x) (ht : Touched who L x x')
    (hr : restored = true → x'.settled = true) :
    Accounted L (r.next who x x' restored failed) x' := by
  intro u hu
  obtain ⟨hkeep, hclaim | ⟨-, hX⟩⟩ := ht.claims hr hu
  · rw [ht.id]
    exact (h u hclaim).imp_left (hkeep u)
  · rw [ht.id]
    exact .inr hX

end Touching

/-! ## Trails of all frames -/

/-- The page of a frame before a step: a frame that the step has made was an unchanged image. -/
def Pool.prior (P P' : Pool Tables) (f : FrameId) : Page :=
  if f.index < P.frames.size then P.page f else (P'.page f).before

/-- The trails after a step of `who` from one pool to another. -/
def Trail.after (A : FrameId → Trail) (who : Option TxnId) (P P' : Pool Tables)
    (restored failed : FrameId → Bool) (f : FrameId) : Trail :=
  (if f.index < P.frames.size then A f else {}).next who (P.prior P' f) (P'.page f) (restored f) (failed f)

/-- Frames that do not exist yet have no trail. -/
def Unborn (P : Pool Tables) (A : FrameId → Trail) : Prop := ∀ f, P.frames.size ≤ f.index → A f = {}

section After

variable {A : FrameId → Trail} {who : Option TxnId} {P P' : Pool Tables}
  {restored failed : FrameId → Bool}

theorem Pool.page_of_le {f : FrameId} (h : P.frames.size ≤ f.index) : P.page f = default := by
  simp [page, h]

theorem unborn_after (hsize : P.frames.size ≤ P'.frames.size) :
    Unborn P' (Trail.after A who P P' restored failed) := by
  intro f hf
  have hold : ¬f.index < P.frames.size := by omega
  rw [Trail.after, Pool.prior, if_neg hold, if_neg hold, Pool.page_of_le hf]
  exact Trail.next_default who _ _

/-- A step that leaves all frames alone leaves the trails. -/
theorem after_of_frames (hA : Unborn P A) (hframes : P'.frames = P.frames) :
    Trail.after A who P P' (fun _ => false) (fun _ => false) = A := by
  funext f
  have hpage : P'.page f = P.page f := Pool.page_congr hframes f
  by_cases hf : f.index < P.frames.size
  · rw [Trail.after, Pool.prior, if_pos hf, if_pos hf, hpage, Trail.next_self]
  · rw [hA f (by omega)]
    rw [Trail.after, Pool.prior, if_neg hf, if_neg hf, hpage, Pool.page_of_le (by omega)]
    exact Trail.next_default who _ _

end After

/-! ## What holds between two sections -/

/-- The cached frame of the page has nothing of `t` but what `t` has abandoned. -/
def Clear (P : Pool Tables) (A : FrameId → Trail) (t : TxnId) (p : PageId) : Prop :=
  ∀ f, P.resident[p]? = some f → Claims (A f) (P.page f) t → t ∈ (A f).abandoned

/-- A frame of `p` that only `t` can see may be changed and installed by `t`. -/
structure Grip (P : Pool Tables) (A : FrameId → Trail) (t : TxnId) (p : PageId) (f : FrameId) :
    Prop where
  index_lt : f.index < P.frames.size
  id_eq : (P.page f).id = p
  exclusive : P.locks.modeOf p t = some .exclusive
  resident : P.resident[p]? = none ∨ P.resident[p]? = some f
  accounted : Accounted P.locks (A f) (P.page f)

/-- What a call that wants the page `p` has to answer for: an insert gives up a page only if it did not
hold it before, and then it has not changed it. -/
def UseFits (P : Pool Tables) (A : FrameId → Trail) (t : TxnId) (p : PageId) : Use → Prop
  | .place i => i.page = p ∧ (i.heldBefore = false → Clear P A t p)
  | _ => True

/-- What a call of `t` has to answer for at its next section; `edits` says that its client overwrites the
page that it fetches. -/
def ActivityFits (P : Pool Tables) (A : FrameId → Trail) (t : TxnId) (edits : Bool) : Activity → Prop
  | .start r => (Action.request t r).ThroughPool ∧ (edits = true → ∃ p, r = .get p .write)
  | .locking p m use => UseFits P A t p use ∧ (use.Writes ∨ edits = true → m = .exclusive)
  | .sleeping _ p m use => UseFits P A t p use ∧ (use.Writes ∨ edits = true → m = .exclusive)
  | .fetching p use =>
    UseFits P A t p use ∧ (P.locks.modeOf p t).isSome ∧
      (use.Writes ∨ edits = true → P.locks.modeOf p t = some .exclusive)
  | .working p f use => edits = false ∧ UseFits P A t p use ∧ (use.Writes → Grip P A t p f)
  | .dropping i => Clear P A t i.page
  | .installing [] => True
  | .installing [f] => Grip P A t (P.page f).id f
  | .installing (_ :: _ :: _) => False
  | .releasing .. => ∀ p, Clear P A t p
  | .counting _ => True
  | .growing _ => True
  | .ending .. => True
  | .finished _ => True

theorem ActivityFits.grip {P : Pool Tables} {A : FrameId → Trail} {t : TxnId} {edits : Bool}
    {a : Activity} (ha : ActivityFits P A t edits a) {f : FrameId} (hf : a.Changes f) :
    a = .installing [f] ∧ Grip P A t (P.page f).id f := by
  obtain ⟨fs, rfl⟩ := hf
  cases fs with
  | nil => exact ⟨rfl, ha⟩
  | cons g gs => exact ha.elim

structure TaskFits (P : Pool Tables) (A : FrameId → Trail) (t : TxnId) (k : Task) : Prop where
  txn : k.call.txn = t
  installs : k.call.installs = true
  activity : ActivityFits P A t k.rule.isSome k.call.activity

/-- What holds of a pool, the trails of its frames and the calls in flight. -/
structure Accountable (P : Pool Tables) (A : FrameId → Trail) (tasks : TxnId → Option Task) : Prop where
  locks : P.locks.Consistent
  heaps : P.storage.HeapsOnly
  filed : P.Filed
  unborn : Unborn P A
  accounted : ∀ (p : PageId) (f : FrameId), P.resident[p]? = some f → Accounted P.locks (A f) (P.page f)
  /-- A settled frame has no author who has not abandoned it, except one who is about to install it. -/
  quiet : ∀ (p : PageId) (f : FrameId), P.resident[p]? = some f → (P.page f).settled = true →
    ∀ u ∈ (A f).authors, u ∈ (A f).abandoned ∨ ∃ k, tasks u = some k ∧ k.call.activity.Changes f
  fits : ∀ t k, tasks t = some k → TaskFits P A t k

/-- What a transaction does not hold exclusively it has not changed, or it has abandoned it. -/
theorem Accountable.clear {P : Pool Tables} {A : FrameId → Trail} {tasks : TxnId → Option Task}
    (hi : Accountable P A tasks) {t : TxnId} {p : PageId} (hX : P.locks.modeOf p t ≠ some .exclusive) :
    Clear P A t p := by
  intro f hf hclaim
  refine (hi.accounted p f hf t hclaim).resolve_right ?_
  rw [(hi.filed p f hf).2]
  exact hX

/-! ## Steps that leave the locks alone -/

/-- A step of `who` from `P` to `P'` that leaves the locks alone. It changes frames as their locks allow,
and what is cached after it was cached before, or was made by it, or was to be installed by it. -/
structure Moved (who : Option TxnId) (grips : FrameId → Prop) (P P' : Pool Tables) : Prop where
  locks : P'.locks = P.locks
  heaps : P'.storage.HeapsOnly
  size : P.frames.size ≤ P'.frames.size
  filed : P'.Filed
  touched : ∀ f, f.index < P'.frames.size → Touched who P.locks (P.prior P' f) (P'.page f)
  resident : ∀ (p : PageId) (f : FrameId), P'.resident[p]? = some f → P.resident[p]? = some f ∨
    ∃ t, who = some t ∧ (P.locks.modeOf p t).isSome ∧ (P.frames.size ≤ f.index ∨ grips f)

section Moving

variable {P P' : Pool Tables} {A : FrameId → Trail} {tasks tasks' : TxnId → Option Task}
  {who : Option TxnId} {grips : FrameId → Prop} {restored failed : FrameId → Bool} {u : TxnId}
  {p : PageId} {f : FrameId}

theorem Pool.prior_of_lt (hf : f.index < P.frames.size) : P.prior P' f = P.page f := if_pos hf

/-- The frame that is cached after a step was accounted for before it. -/
theorem Moved.accounted_prior (hm : Moved who grips P P') (hi : Accountable P A tasks)
    (hgrips : ∀ f, grips f → f.index < P.frames.size ∧ Accounted P.locks (A f) (P.page f))
    (hf : P'.resident[p]? = some f) :
    Accounted P.locks (if f.index < P.frames.size then A f else {}) (P.prior P' f) := by
  by_cases hlt : f.index < P.frames.size
  · rw [if_pos hlt, Pool.prior_of_lt hlt]
    rcases hm.resident p f hf with hold | ⟨-, -, -, hnew | hgrip⟩
    · exact hi.accounted p f hold
    · omega
    · exact (hgrips f hgrip).2
  · rw [if_neg hlt, Pool.prior, if_neg hlt]
    intro v hv
    rcases hv with hv | hv
    · exact absurd hv List.not_mem_nil
    · cases hv

theorem Moved.accounted (hm : Moved who grips P P') (hi : Accountable P A tasks)
    (hgrips : ∀ f, grips f → f.index < P.frames.size ∧ Accounted P.locks (A f) (P.page f))
    (hr : ∀ f, restored f = true → (P'.page f).settled = true) (hf : P'.resident[p]? = some f) :
    Accounted P'.locks (Trail.after A who P P' restored failed f) (P'.page f) := by
  rw [hm.locks]
  exact (hm.accounted_prior hi hgrips hf).next (hm.touched f (hm.filed p f hf).1) (hr f)

/-- What `u` has not changed others do not change for it. -/
theorem Clear.move (hc : Clear P A u p) (hm : Moved who grips P P') (hi : Accountable P A tasks)
    (hu : who ≠ some u)
    (hgrips : ∀ f, grips f → f.index < P.frames.size ∧ Accounted P.locks (A f) (P.page f))
    (hr : ∀ f, restored f = true → (P'.page f).settled = true) :
    Clear P' (Trail.after A who P P' restored failed) u p := by
  intro f hf hclaim
  obtain ⟨hlt', hid⟩ := hm.filed p f hf
  have ht := hm.touched f hlt'
  obtain ⟨hkeep, hold | ⟨hwho, -⟩⟩ := ht.claims (hr f) hclaim
  · apply hkeep
    rcases hm.resident p f hf with hres | ⟨t, hwho, hheld, -⟩
    · have hlt := (hi.filed p f hres).1
      rw [if_pos hlt] at hold ⊢
      rw [Pool.prior_of_lt hlt] at hold
      exact hc f hres hold
    · -- Somebody else holds the page, so `u` does not hold it exclusively.
      refine (hm.accounted_prior hi hgrips hf u hold).resolve_right fun hX => hu ?_
      rw [← ht.id, hid] at hX
      rw [hwho, LockTable.eq_of_modeOf_exclusive hX hheld]
  · exact absurd hwho hu

theorem Grip.move (hg : Grip P A u p f) (hm : Moved who grips P P') (hu : who ≠ some u)
    (hr : ∀ f, restored f = true → (P'.page f).settled = true) :
    Grip P' (Trail.after A who P P' restored failed) u p f := by
  have hlt' := Nat.lt_of_lt_of_le hg.index_lt hm.size
  have ht := hm.touched f hlt'
  rw [Pool.prior_of_lt hg.index_lt] at ht
  refine ⟨hlt', ht.id.trans hg.id_eq, by rw [hm.locks]; exact hg.exclusive, ?_, ?_⟩
  · cases hres : P'.resident[p]? with
    | none => exact .inl rfl
    | some g =>
      rcases hm.resident p g hres with hold | ⟨t, hwho, hheld, -⟩
      · rcases hg.resident with hnone | hf
        · rw [hnone] at hold
          cases hold
        · exact .inr (hold ▸ hf)
      · exact absurd (by rw [hwho, LockTable.eq_of_modeOf_exclusive hg.exclusive hheld]) hu
  · rw [hm.locks, Trail.after, if_pos hg.index_lt, Pool.prior_of_lt hg.index_lt]
    exact hg.accounted.next ht (hr f)

theorem UseFits.move {use : Use} (h : UseFits P A u p use) (hm : Moved who grips P P')
    (hi : Accountable P A tasks) (hu : who ≠ some u)
    (hgrips : ∀ f, grips f → f.index < P.frames.size ∧ Accounted P.locks (A f) (P.page f))
    (hr : ∀ f, restored f = true → (P'.page f).settled = true) :
    UseFits P' (Trail.after A who P P' restored failed) u p use := by
  cases use with
  | place i => exact ⟨h.1, fun hb => (h.2 hb).move hm hi hu hgrips hr⟩
  | holdLock => trivial
  | deliver => trivial
  | collect x pages next rows => trivial
  | remove x slot => trivial

theorem ActivityFits.move {edits : Bool} {a : Activity} (h : ActivityFits P A u edits a)
    (hm : Moved who grips P P') (hi : Accountable P A tasks) (hu : who ≠ some u)
    (hgrips : ∀ f, grips f → f.index < P.frames.size ∧ Accounted P.locks (A f) (P.page f))
    (hr : ∀ f, restored f = true → (P'.page f).settled = true) :
    ActivityFits P' (Trail.after A who P P' restored failed) u edits a := by
  cases a with
  | start r => exact h
  | locking p m use => exact ⟨h.1.move hm hi hu hgrips hr, h.2⟩
  | sleeping ticket p m use => exact ⟨h.1.move hm hi hu hgrips hr, h.2⟩
  | fetching p use =>
    refine ⟨h.1.move hm hi hu hgrips hr, ?_⟩
    rw [hm.locks]
    exact h.2
  | working p f use =>
    exact ⟨h.1, h.2.1.move hm hi hu hgrips hr, fun hw => (h.2.2 hw).move hm hu hr⟩
  | dropping i => exact Clear.move h hm hi hu hgrips hr
  | installing fs =>
    cases fs with
    | nil => trivial
    | cons f gs =>
      cases gs with
      | cons g gs => exact h.elim
      | nil =>
        have hg : Grip P' (Trail.after A who P P' restored failed) u (P.page f).id f :=
          Grip.move h hm hu hr
        rw [← hg.id_eq] at hg
        exact hg
  | releasing commit r => exact fun p => (h p).move hm hi hu hgrips hr
  | counting i => trivial
  | growing i => trivial
  | ending commit r => trivial
  | finished r => trivial

/-- **What holds between two sections is kept by a step that leaves the locks alone**, if the call whose
step it was fits afterwards, and goes on to install what it has changed without a mark. -/
theorem Accountable.move (hi : Accountable P A tasks) (hm : Moved who grips P P')
    (hothers : ∀ u, who ≠ some u → tasks' u = tasks u)
    (hgrips : ∀ f, grips f → ∃ t k, who = some t ∧ tasks t = some k ∧ k.call.activity.Changes f)
    (hr : ∀ f, restored f = true → (P'.page f).settled = true)
    (hinstall : ∀ t k f, who = some t → tasks t = some k → k.call.activity.Changes f →
      (P'.page f).settled = false)
    (hdraft : ∀ (t : TxnId) (p : PageId) (f : FrameId), who = some t → P'.resident[p]? = some f →
      (P'.page f).settled = true → restored f = false → (P'.page f).data ≠ (P.prior P' f).data →
      ∃ k, tasks' t = some k ∧ k.call.activity.Changes f)
    (hown : ∀ t k, who = some t → tasks' t = some k →
      TaskFits P' (Trail.after A who P P' restored failed) t k) :
    Accountable P' (Trail.after A who P P' restored failed) tasks' := by
  have hgrips' : ∀ f, grips f → f.index < P.frames.size ∧ Accounted P.locks (A f) (P.page f) := by
    intro f hf
    obtain ⟨t, k, -, hk, hc⟩ := hgrips f hf
    obtain ⟨-, hg⟩ := (hi.fits t k hk).activity.grip hc
    exact ⟨hg.index_lt, hg.accounted⟩
  refine ⟨by rw [hm.locks]; exact hi.locks, hm.heaps, hm.filed, unborn_after hm.size,
    fun p f hf => hm.accounted hi hgrips' hr hf, ?_, ?_⟩
  · intro p f hf hsettled u hu
    rcases Trail.next_cases (if f.index < P.frames.size then A f else {}) who (P.prior P' f)
      (P'.page f) (restored f) (failed f) with ⟨hnext, -⟩ | ⟨hrest, hsame, hauthors, habandoned⟩
    · rw [Trail.after, hnext] at hu
      exact absurd hu List.not_mem_nil
    rcases (hauthors u).1 hu with hold | ⟨hwho, hdata⟩
    · by_cases hdata : (P'.page f).data = (P.prior P' f).data
      · -- The frame was settled before, and it is the same one.
        have hlt : f.index < P.frames.size := by
          by_contra hlt
          rw [if_neg hlt] at hold
          exact List.not_mem_nil hold
        rw [if_pos hlt] at hold
        have hprior := hsame hdata hsettled
        rw [Pool.prior_of_lt hlt] at hprior
        have hres : P.resident[p]? = some f := by
          rcases hm.resident p f hf with hres | ⟨-, -, -, hnew | hgrip⟩
          · exact hres
          · omega
          · obtain ⟨t, k, hwho, hk, hc⟩ := hgrips f hgrip
            rw [hinstall t k f hwho hk hc] at hsettled
            cases hsettled
        rcases hi.quiet p f hres hprior u hold with hab | ⟨k, hk, hc⟩
        · exact .inl ((habandoned u).2 (.inl (by rw [if_pos hlt]; exact hab)))
        · refine .inr ⟨k, ?_, hc⟩
          rw [hothers u, hk]
          intro hwho
          rw [hinstall u k f hwho hk hc] at hsettled
          cases hsettled
      · obtain ⟨t, hwho, hX⟩ := (hm.touched f (hm.filed p f hf).1).data.resolve_left hdata
        by_cases hut : u = t
        · subst hut
          exact .inr (hdraft u p f hwho hf hsettled hrest hdata)
        · refine .inl ((habandoned u).2 (.inl ?_))
          refine (hm.accounted_prior hi hgrips' hf u (.inl hold)).resolve_right fun hXu => hut ?_
          exact (LockTable.eq_of_modeOf_exclusive hX (by rw [hXu]; rfl))
    · exact .inr (hdraft u p f hwho hf hsettled hrest hdata)
  · intro t k hk
    by_cases hwho : who = some t
    · exact hown t k hwho hk
    · rw [hothers t hwho] at hk
      obtain ⟨htxn, hinst, ha⟩ := hi.fits t k hk
      exact ⟨htxn, hinst, ha.move hm hi hwho hgrips' hr⟩

/-! ## Other steps -/

/-- A transaction that is not about to install a frame may leave. -/
theorem Accountable.retire (hi : Accountable P A tasks)
    (hu : ∀ k f, tasks u = some k → ¬k.call.activity.Changes f) :
    Accountable P A (Function.update tasks u none) where
  locks := hi.locks
  heaps := hi.heaps
  filed := hi.filed
  unborn := hi.unborn
  accounted := hi.accounted
  quiet q f hf hsettled v hv := by
    refine (hi.quiet q f hf hsettled v hv).imp_right ?_
    rintro ⟨k, hk, hc⟩
    have hvu : v ≠ u := by
      rintro rfl
      exact hu k f hk hc
    exact ⟨k, by simp [hvu, hk], hc⟩
  fits v k hk := by
    by_cases hvu : v = u
    · simp [hvu] at hk
    · exact hi.fits v k (by simpa [hvu] using hk)

theorem Accountable.employ (hi : Accountable P A (Function.update tasks u none)) {k : Task}
    (hk : TaskFits P A u k) : Accountable P A (Function.update tasks u (some k)) where
  locks := hi.locks
  heaps := hi.heaps
  filed := hi.filed
  unborn := hi.unborn
  accounted := hi.accounted
  quiet q f hf hsettled v hv := by
    refine (hi.quiet q f hf hsettled v hv).imp_right ?_
    rintro ⟨k', hk', hc⟩
    by_cases hvu : v = u
    · simp [hvu] at hk'
    · exact ⟨k', by simpa [hvu] using hk', hc⟩
  fits v k' hk' := by
    by_cases hvu : v = u
    · subst hvu
      obtain rfl : k = k' := by simpa using hk'
      exact hk
    · exact hi.fits v k' (by simpa [hvu] using hk')

/-- **Locks can change as long as the other transactions keep theirs, and nobody gives up a page with
anything of its own in it.** -/
theorem Accountable.relock (hi : Accountable P A tasks) (hu : tasks u = none) {L : LockTable}
    (hL : L.Consistent) (hmodes : ∀ q v, v ≠ u → L.modeOf q v = P.locks.modeOf q v)
    (hkept : ∀ q, P.locks.modeOf q u = some .exclusive → L.modeOf q u = some .exclusive ∨ Clear P A u q) :
    Accountable (P.withLocks L) A tasks := by
  have haccounted : ∀ (q : PageId) (f : FrameId), P.resident[q]? = some f →
      Accounted L (A f) (P.page f) := by
    intro q f hf v hv
    rcases hi.accounted q f hf v hv with hab | hX
    · exact .inl hab
    · by_cases hvu : v = u
      · subst hvu
        rcases hkept _ hX with hX' | hclear
        · exact .inr hX'
        · exact .inl (hclear f (by rw [(hi.filed q f hf).2]; exact hf) hv)
      · exact .inr (by rw [hmodes _ v hvu, hX])
  have hgrip : ∀ v q f, v ≠ u → Grip P A v q f → Grip (P.withLocks L) A v q f := by
    intro v q f hvu hg
    refine ⟨hg.index_lt, hg.id_eq, (hmodes q v hvu).trans hg.exclusive, hg.resident, ?_⟩
    intro x hx
    refine (hg.accounted x hx).imp_right fun hX => ?_
    -- Nobody but `v` holds the page of its frame.
    obtain rfl : x = v := by
      refine LockTable.eq_of_modeOf_exclusive hg.exclusive ?_
      rw [← hg.id_eq, hX]
      rfl
    exact (hmodes _ x hvu).trans hX
  refine ⟨hL, hi.heaps, hi.filed, hi.unborn, haccounted, hi.quiet, ?_⟩
  intro v k hk
  have hvu : v ≠ u := by
    rintro rfl
    rw [hu] at hk
    cases hk
  obtain ⟨htxn, hinst, ha⟩ := hi.fits v k hk
  refine ⟨htxn, hinst, ?_⟩
  revert ha
  cases k.call.activity with
  | start r => exact fun h => h
  | locking q m use => cases use <;> exact fun h => h
  | sleeping ticket q m use => cases use <;> exact fun h => h
  | fetching q use =>
    rintro ⟨huse, hheld, hX⟩
    refine ⟨by cases use <;> exact huse, ?_, fun hw => (hmodes q v hvu).trans (hX hw)⟩
    show (L.modeOf q v).isSome = true
    rw [hmodes q v hvu]
    exact hheld
  | working q f use =>
    rintro ⟨hplain, huse, hw⟩
    exact ⟨hplain, by cases use <;> exact huse, fun hwr => hgrip v q f hvu (hw hwr)⟩
  | dropping i => exact fun h => h
  | installing fs =>
    intro h
    cases fs with
    | nil => trivial
    | cons f gs =>
      cases gs with
      | nil => exact hgrip v _ f hvu h
      | cons g gs => exact h.elim
  | releasing commit r => exact fun h => h
  | counting i => exact fun h => h
  | growing i => exact fun h => h
  | ending commit r => exact fun h => h
  | finished r => exact fun h => h

end Moving

end PageEngine
