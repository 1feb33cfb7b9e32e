import PageEngine.Proofs.World.Sections
import PageEngine.Proofs.World.Trails

/-!
# `Proofs/World/Accounting.lean` — every section answers for what it changes

A section leaves frames and locks in one of a few ways, whatever the files below answer: it drops clean
pages from the cache, makes a new frame, writes to a frame or marks it, or changes the locks of its own
transaction. `Moved` is built up from the former, and `Accountable.relock` is about the latter.

> **what holds between two sections is kept by every section of every call** (`stepFits`), the end of a
> transaction apart, whose locks go although its commit has failed.
-/

set_option autoImplicit false

namespace PageEngine

open Std

/-! ## The ways in which a section moves frames -/

section Blocks

variable {P Q R : Pool Tables} {A : FrameId → Trail} {tasks : TxnId → Option Task}
  {who : Option TxnId} {grips : FrameId → Prop} {t : TxnId} {p : PageId} {f : FrameId}

theorem Moved.of_frames (hP : P.Filed) (hl : Q.locks = P.locks) (hh : Q.storage.HeapsOnly)
    (hf : Q.frames = P.frames)
    (hres : ∀ (p : PageId) (f : FrameId), Q.resident[p]? = some f → P.resident[p]? = some f) :
    Moved who grips P Q where
  locks := hl
  heaps := hh
  size := Nat.le_of_eq (by rw [hf])
  filed q g hg := by
    obtain ⟨hlt, hid⟩ := hP q g (hres q g hg)
    exact ⟨by rw [hf]; exact hlt, by rw [Pool.page_congr hf]; exact hid⟩
  touched g hg := by
    rw [hf] at hg
    rw [Pool.prior_of_lt hg, Pool.page_congr hf]
    exact .refl who _ _
  resident q g hg := .inl (hres q g hg)

theorem Moved.refl (hi : Accountable P A tasks) : Moved who grips P P :=
  .of_frames hi.filed rfl hi.heaps rfl fun _ _ h => h

theorem Moved.of_tidied (hP : P.Filed) (hh : P.storage.HeapsOnly) {φ : Page → Page}
    (hid : ∀ x, (φ x).id = x.id) (hdata : ∀ x, (φ x).data = x.data) (hdirty : ∀ x, (φ x).dirty = none)
    (h : Pool.Tidied P Q φ) : Moved who grips P Q where
  locks := h.locks
  heaps := hh.congr h.catalog
  size := Nat.le_of_eq h.size.symm
  filed := h.filed hP hid
  touched g hg := by
    rw [h.size] at hg
    rw [Pool.prior_of_lt hg]
    rcases h.frames g with hsame | hsame <;> rw [hsame]
    · exact .refl who _ _
    · exact ⟨hid _, .inl (hdata _), .inl (hdirty _)⟩
  resident q g hg := .inl (h.resident ▸ hg)

theorem Moved.shrunk (hm : Moved who grips P Q) (h : Pool.Shrunk Q R) : Moved who grips P R where
  locks := h.locks.trans hm.locks
  heaps := h.storage ▸ hm.heaps
  size := h.frames ▸ hm.size
  filed q g hg := by
    obtain ⟨hlt, hid⟩ := hm.filed q g (h.resident_of_some hg)
    exact ⟨by rw [h.frames]; exact hlt, by rw [Pool.page_congr h.frames]; exact hid⟩
  touched g hg := by
    have ht := hm.touched g (by rw [← h.frames]; exact hg)
    have hprior : P.prior R g = P.prior Q g := by
      rw [Pool.prior, Pool.prior, Pool.page_congr h.frames]
    rw [hprior, Pool.page_congr h.frames]
    exact ht
  resident q g hg := hm.resident q g (h.resident_of_some hg)

/-- A transaction may write to a frame and mark it if it holds the page exclusively. -/
theorem Moved.setPage (hm : Moved (some t) grips P Q) {y : Page}
    (hX : P.locks.modeOf y.id t = some .exclusive) (hid : y.id = (Q.page f).id)
    (hdirty : y.dirty = (Q.page f).dirty ∨ y.dirty = some t) :
    Moved (some t) grips P (Q.setPage f y) where
  locks := hm.locks
  heaps := hm.heaps
  size := by rw [Pool.size_setPage]; exact hm.size
  filed q g hg := by
    obtain ⟨hlt, hid'⟩ := hm.filed q g hg
    refine ⟨by rw [Pool.size_setPage]; exact hlt, ?_⟩
    rw [Pool.page_setPage]
    split
    · rename_i hgf
      rw [hid, ← hgf.1, hid']
    · exact hid'
  touched g hg := by
    rw [Pool.size_setPage] at hg
    have ht := hm.touched g hg
    by_cases hgf : g = f
    · subst hgf
      have hpage : (Q.setPage g y).page g = y := by rw [Pool.page_setPage, if_pos ⟨rfl, hg⟩]
      by_cases hlt : g.index < P.frames.size
      · rw [Pool.prior_of_lt hlt] at ht ⊢
        rw [hpage]
        have hX' : P.locks.modeOf (P.page g).id t = some .exclusive := by rw [← ht.id, ← hid, hX]
        refine ⟨hid.trans ht.id, .inr ⟨t, rfl, hX'⟩, ?_⟩
        rcases hdirty with hsame | hmark
        · rw [hsame]
          exact ht.dirty
        · exact .inr (.inr ⟨t, rfl, hmark, hX'⟩)
      · rw [Pool.prior, if_neg hlt] at ht ⊢
        rw [hpage]
        refine ⟨rfl, .inr ⟨t, rfl, hX⟩, ?_⟩
        rcases hdirty with hsame | hmark
        · rcases ht.dirty with hnone | hnone | ⟨u, hu, hmark, -⟩
          · exact .inl (hsame.trans hnone)
          · exact .inl (hsame.trans hnone)
          · obtain rfl := Option.some.inj hu
            exact .inr (.inr ⟨t, rfl, hsame.trans hmark, hX⟩)
        · exact .inr (.inr ⟨t, rfl, hmark, hX⟩)
    · have hpage : (Q.setPage f y).page g = Q.page g := by
        rw [Pool.page_setPage_of_ne _ _ hgf]
      have hprior : P.prior (Q.setPage f y) g = P.prior Q g := by
        rw [Pool.prior, Pool.prior, hpage]
      rw [hprior, hpage]
      exact ht
  resident := hm.resident

/-- A transaction that holds a page may cache a frame that it has made or was about to install. -/
theorem Moved.cache (hm : Moved (some t) grips P Q) (hheld : (P.locks.modeOf p t).isSome)
    (hlt : f.index < Q.frames.size) (hid : (Q.page f).id = p)
    (hnew : P.frames.size ≤ f.index ∨ grips f) : Moved (some t) grips P (Q.cache p f) where
  locks := hm.locks
  heaps := hm.heaps
  size := hm.size
  filed q g hg := by
    rw [Pool.resident_cache] at hg
    split at hg
    · rename_i hq
      obtain rfl := Option.some.inj hg
      exact ⟨hlt, hid.trans hq.symm⟩
    · exact hm.filed q g hg
  touched := hm.touched
  resident q g hg := by
    rw [Pool.resident_cache] at hg
    split at hg
    · rename_i hq
      obtain rfl := Option.some.inj hg
      exact .inr ⟨t, rfl, hq ▸ hheld, hnew⟩
    · exact hm.resident q g hg

/-- A new frame is a clean image. -/
theorem Moved.addFrame (hm : Moved who grips P Q) {x : Page} (hx : x.before = x) :
    Moved who grips P (Q.addFrame x) where
  locks := hm.locks
  heaps := hm.heaps
  size := by
    have := hm.size
    simp only [Pool.addFrame, Array.size_push]
    omega
  filed q g hg := by
    obtain ⟨hlt, hid⟩ := hm.filed q g hg
    refine ⟨?_, by rw [Pool.page_addFrame_of_lt hlt]; exact hid⟩
    simp only [Pool.addFrame, Array.size_push]
    omega
  touched g hg := by
    by_cases hlt : g.index < Q.frames.size
    · have hpage := Pool.page_addFrame_of_lt hlt x
      have hprior : P.prior (Q.addFrame x) g = P.prior Q g := by
        rw [Pool.prior, Pool.prior, hpage]
      rw [hprior, hpage]
      exact hm.touched g hlt
    · have hsize := hm.size
      obtain rfl : g = Q.nextFrame := by
        simp only [Pool.addFrame, Array.size_push] at hg
        cases g
        simp only [Pool.nextFrame, FrameId.mk.injEq]
        simp only at hg hlt
        omega
      have hnew : ¬(Q.nextFrame).index < P.frames.size := by
        simp only [Pool.nextFrame]
        omega
      rw [Pool.prior, if_neg hnew, Pool.page_nextFrame, hx]
      exact .refl who _ _
  resident := hm.resident

/-- No flags. -/
def no : FrameId → Bool := fun _ => false

/-- A step of a transaction without a call keeps what holds, if it marks what it changes and settles what it
brings back. -/
theorem Accountable.settle (hi : Accountable P A tasks) (ht : tasks t = none)
    (hm : Moved (some t) (fun _ => False) P Q) {restored : FrameId → Bool} (failed : FrameId → Bool)
    (hr : ∀ f, restored f = true → (Q.page f).settled = true)
    (hdata : ∀ (p : PageId) (f : FrameId), Q.resident[p]? = some f → restored f = false →
      (Q.page f).settled = true → (Q.page f).data = (P.prior Q f).data) :
    Accountable Q (Trail.after A (some t) P Q restored failed) tasks := by
  have hnone : ∀ u k, some t = some u → tasks u ≠ some k := by
    intro u k hu
    rw [← Option.some.inj hu, ht]
    simp
  exact hi.move hm (fun _ _ => rfl) (fun f hf => hf.elim) hr
    (fun u k f hu hk => absurd hk (hnone u k hu))
    (fun u p f _ hf hs hrest hne => absurd (hdata p f hf hrest hs) hne)
    (fun u k hu hk => absurd hk (hnone u k hu))

theorem Accountable.advance (hi : Accountable P A tasks) (ht : tasks t = none)
    (hm : Moved (some t) (fun _ => False) P Q)
    (hdata : ∀ (p : PageId) (f : FrameId), Q.resident[p]? = some f → (Q.page f).settled = true →
      (Q.page f).data = (P.prior Q f).data) :
    Accountable Q (Trail.after A (some t) P Q no no) tasks :=
  hi.settle ht hm no (fun f hf => by cases hf) fun p f hf _ => hdata p f hf

theorem after_no_of_frames (hi : Accountable P A tasks) (hf : Q.frames = P.frames) :
    Trail.after A who P Q no no = A := after_of_frames hi.unborn hf

/-- A step that leaves frames and locks alone and caches nothing keeps what holds. -/
theorem Accountable.still (hi : Accountable P A tasks) (hl : Q.locks = P.locks)
    (hh : Q.storage.HeapsOnly) (hf : Q.frames = P.frames)
    (hres : ∀ (p : PageId) (f : FrameId), Q.resident[p]? = some f → P.resident[p]? = some f) :
    Accountable Q A tasks := by
  have hm : Moved none (fun _ => False) P Q := .of_frames hi.filed hl hh hf hres
  have h : Accountable Q (Trail.after A none P Q no no) tasks :=
    hi.move hm (fun _ _ => rfl) (fun f hg => hg.elim) (fun f hg => by cases hg)
      (fun u k f hu => by cases hu) (fun u p f hu => by cases hu) (fun u k hu => by cases hu)
  rwa [after_no_of_frames hi hf] at h

theorem Accountable.shrunk (hi : Accountable P A tasks) (h : Pool.Shrunk P Q) : Accountable Q A tasks :=
  hi.still h.locks (h.storage ▸ hi.heaps) h.frames fun _ _ => h.resident_of_some

theorem Accountable.moved_readIn (hi : Accountable P A tasks) (hheld : (P.locks.modeOf p t).isSome)
    (hR : Pool.Shrunk P R) (d : PageData) :
    Moved (some t) (fun _ => False) P ((R.addFrame (Page.ofData p d)).cache p R.nextFrame) := by
  have hsize : R.frames.size = P.frames.size := by rw [hR.frames]
  have hpage := Pool.page_nextFrame R (Page.ofData p d)
  refine ((((Moved.refl hi).shrunk hR).addFrame rfl).cache hheld ?_ (by rw [hpage]; rfl) (.inl ?_))
  · simp [Pool.addFrame, Pool.nextFrame]
  · simp [Pool.nextFrame, hsize]

/-- A page that is read into the cache is as it was read, and nobody has a part in it. -/
theorem Accountable.readIn (hi : Accountable P A tasks) (hR : Pool.Shrunk P R) (d : PageData) :
    (∀ (q : PageId) (g : FrameId),
      ((R.addFrame (Page.ofData p d)).cache p R.nextFrame).resident[q]? = some g →
      (((R.addFrame (Page.ofData p d)).cache p R.nextFrame).page g).data =
        (P.prior ((R.addFrame (Page.ofData p d)).cache p R.nextFrame) g).data) ∧
    ∀ u, Clear ((R.addFrame (Page.ofData p d)).cache p R.nextFrame)
      (Trail.after A (some t) P ((R.addFrame (Page.ofData p d)).cache p R.nextFrame) no no) u p := by
  have hsize : R.frames.size = P.frames.size := by rw [hR.frames]
  have hnew : ¬(R.nextFrame).index < P.frames.size := by simp [Pool.nextFrame, hsize]
  have hself : ((R.addFrame (Page.ofData p d)).cache p R.nextFrame).page R.nextFrame = Page.ofData p d :=
    Pool.page_nextFrame R (Page.ofData p d)
  refine ⟨fun q g hg => ?_, fun u g hg hclaim => ?_⟩
  · rw [Pool.resident_cache] at hg
    split at hg
    · obtain rfl := Option.some.inj hg
      rw [Pool.prior, if_neg hnew, hself]
      rfl
    · have hlt := (hi.filed q g (hR.resident_of_some hg)).1
      rw [Pool.prior_of_lt hlt]
      show ((R.addFrame (Page.ofData p d)).page g).data = _
      rw [Pool.page_addFrame_of_lt (by rw [hsize]; exact hlt), Pool.page_congr hR.frames]
  · rw [Pool.resident_cache, if_pos rfl] at hg
    obtain rfl := Option.some.inj hg
    have hfresh : Trail.after A (some t) P ((R.addFrame (Page.ofData p d)).cache p R.nextFrame) no no
        R.nextFrame = {} := by
      rw [Trail.after, if_neg hnew, Pool.prior, if_neg hnew, hself]
      exact Trail.next_self {} (some t) (Page.ofData p d)
    rw [hfresh, hself] at hclaim
    exact absurd hclaim (not_claims_of_settled (Page.settled_iff.2 ⟨rfl, rfl⟩) u)

/-- **A fetch for a transaction that holds the page fails, or gives the frame that is cached then**, which
holds of each transaction what was there of it before, and else is new. -/
theorem Accountable.fetch (hi : Accountable P A tasks) (ht : tasks t = none)
    (hheld : (P.locks.modeOf p t).isSome) :
    ∃ Q, Moved (some t) (fun _ => False) P Q ∧
      Accountable Q (Trail.after A (some t) P Q no no) tasks ∧
      (∀ (q : PageId) (g : FrameId), Q.resident[q]? = some g → (Q.page g).data = (P.prior Q g).data) ∧
      ((∃ e, P.fetch p = (Q, .error e)) ∨ ∃ f, P.fetch p = (Q, .ok f) ∧ Q.resident[p]? = some f ∧
        ∀ u, Clear P A u p → Clear Q (Trail.after A (some t) P Q no no) u p) := by
  have hshrunk : ∀ {R : Pool Tables}, Pool.Shrunk P R → Moved (some t) (fun _ => False) P R ∧
      Accountable R (Trail.after A (some t) P R no no) tasks ∧
      ∀ (q : PageId) (g : FrameId), R.resident[q]? = some g → (R.page g).data = (P.prior R g).data := by
    intro R hR
    refine ⟨(Moved.refl hi).shrunk hR, ?_, fun q g hg => ?_⟩
    · rw [after_no_of_frames hi hR.frames]
      exact hi.shrunk hR
    · rw [Pool.prior_of_lt (hi.filed q g (hR.resident_of_some hg)).1, Pool.page_congr hR.frames]
  rcases P.fetch_reads p with ⟨R, f, hR, hf, hRf, hfetch⟩ | ⟨R, e, hR, hfetch⟩ |
      ⟨R, x, hR, hnone, hread, hfetch⟩
  · obtain ⟨hm, hbase, hdata⟩ := hshrunk hR
    refine ⟨R, hm, hbase, hdata, .inr ⟨f, hfetch, hRf, ?_⟩⟩
    rw [after_no_of_frames hi hR.frames]
    intro u hc g hg
    rw [Pool.page_congr hR.frames]
    exact hc g (hR.resident_of_some hg)
  · obtain ⟨hm, hbase, hdata⟩ := hshrunk hR
    exact ⟨R, hm, hbase, hdata, .inl ⟨e, hfetch⟩⟩
  · obtain ⟨d, rfl⟩ := Tables.readPage_ofData hread
    have hm := hi.moved_readIn hheld hR d
    obtain ⟨hdata, hclear⟩ := hi.readIn (t := t) (p := p) hR d
    exact ⟨_, hm, hi.advance ht hm fun q g hg _ => hdata q g hg, hdata,
      .inr ⟨R.nextFrame, hfetch, by rw [Pool.resident_cache, if_pos rfl], fun u _ => hclear u⟩⟩

end Blocks

/-! ## Every section -/

/-- What holds between two sections holds after the next one of the call `k` of `t`. -/
def StepFits (A : FrameId → Trail) (tasks : TxnId → Option Task) (t : TxnId) (k : Task)
    (P : Pool Tables) (restored failed : FrameId → Bool) : Prop :=
  Accountable (k.call.step P).1 (Trail.after A (some t) P (k.call.step P).1 restored failed)
    (Function.update tasks t (k.after (k.call.step P).1 (k.call.step P).2))

section Sections

variable {P Q : Pool Tables} {A : FrameId → Trail} {tasks : TxnId → Option Task} {t : TxnId}
  {k : Task} {p : PageId} {f : FrameId} {restored failed : FrameId → Bool}

theorem stepFits_finish (r : Except Error Answer) (hstep : k.call.step P = (Q, k.call.finish r))
    (hbase : Accountable Q (Trail.after A (some t) P Q restored failed)
      (Function.update tasks t none)) : StepFits A tasks t k P restored failed := by
  rw [StepFits, hstep]
  exact hbase

theorem stepFits_goOn {c : Call} {a : Activity} (hk : TaskFits P A t k)
    (hstep : k.call.step P = (Q, c.goOn a)) (hres : ∀ r, a ≠ .finished r) (hc : c.txn = k.call.txn)
    (hinst : c.installs = k.call.installs)
    (hbase : Accountable Q (Trail.after A (some t) P Q restored failed) (Function.update tasks t none))
    (ha : ActivityFits Q (Trail.after A (some t) P Q restored failed) t k.rule.isSome a) :
    StepFits A tasks t k P restored failed := by
  have hafter : k.after Q (c.goOn a) = some { k with call := c.goOn a, draft := k.nextDraft Q } := by
    have hnone : (c.goOn a).result? = none := by
      unfold Call.result? Call.goOn
      split
      · rename_i r hr
        exact absurd hr (hres r)
      · rfl
    rw [Task.after, hnone]
    rfl
  rw [StepFits, hstep]
  dsimp only
  rw [hafter]
  have h := hbase.employ (k := { k with call := c.goOn a, draft := k.nextDraft Q })
    ⟨hc.trans hk.txn, hinst.trans hk.installs, ha⟩
  simpa using h

/-- A section that leaves the pool alone. -/
theorem stepFits_same_goOn {a : Activity} (hi : Accountable P A (Function.update tasks t none))
    (hk : TaskFits P A t k) (hstep : k.call.step P = (P, k.call.goOn a)) (hres : ∀ r, a ≠ .finished r)
    (ha : ActivityFits P A t k.rule.isSome a) : StepFits A tasks t k P no no := by
  have hA : Trail.after A (some t) P P no no = A := after_no_of_frames hi rfl
  exact stepFits_goOn hk hstep hres rfl rfl (hA.symm ▸ hi) (hA.symm ▸ ha)

theorem stepFits_same_finish (r : Except Error Answer)
    (hi : Accountable P A (Function.update tasks t none))
    (hstep : k.call.step P = (P, k.call.finish r)) : StepFits A tasks t k P no no := by
  have hA : Trail.after A (some t) P P no no = A := after_no_of_frames hi rfl
  exact stepFits_finish r hstep (hA.symm ▸ hi)

/-- An insert goes on to the next page or grows the file. -/
theorem activityFits_tryNext (hi : Accountable P A tasks) {c : Call} (hc : c.txn = t) (i : Insertion)
    (edits : Bool) :
    ∃ a, c.tryNext P i = c.goOn a ∧ (∀ r, a ≠ .finished r) ∧ ActivityFits P A t edits a := by
  by_cases hlt : i.next < i.pages
  · refine ⟨.locking i.page .exclusive (.place { i with heldBefore := P.locks.holds i.page c.txn }),
      by simp only [Call.tryNext, if_pos hlt], by simp, ⟨rfl, ?_⟩, fun _ => rfl⟩
    intro hheld
    refine hi.clear fun hX => ?_
    simp [LockTable.holds, hc, hX] at hheld
  · exact ⟨.growing i, by simp only [Call.tryNext, if_neg hlt], by simp, trivial⟩

/-- The first section of a request that does not end its transaction. -/
theorem stepFits_start (hi : Accountable P A (Function.update tasks t none)) (hk : TaskFits P A t k)
    {r : Request} (ha : k.call.activity = .start r) (hr : ∀ commit, r ≠ .complete commit) :
    StepFits A tasks t k P no no := by
  have hfits := hk.activity
  rw [ha] at hfits
  obtain ⟨hthrough, hedit⟩ := hfits
  have hstart : k.call.step P = k.call.start P r := by simp only [Call.step, ha]
  have hfails : ∀ e, k.call.start P r = (P, k.call.fail e) → StepFits A tasks t k P no no :=
    fun e he => stepFits_same_finish (.error e) hi (hstart.trans he)
  have hgoes : ∀ a, k.call.start P r = (P, k.call.goOn a) → (∀ x, a ≠ .finished x) →
      ActivityFits P A t k.rule.isSome a → StepFits A tasks t k P no no :=
    fun a he hne hfit => stepFits_same_goOn hi hk (hstart.trans he) hne hfit
  cases r with
  | lock q m =>
    refine hgoes (.locking q m .holdLock) rfl (by simp) ⟨trivial, ?_⟩
    rintro (hw | he)
    · exact hw.elim
    · obtain ⟨x, hx⟩ := hedit he
      cases hx
  | get q a =>
    refine hgoes (.locking q a.mode .deliver) rfl (by simp) ⟨trivial, ?_⟩
    rintro (hw | he)
    · exact hw.elim
    · obtain ⟨x, hx⟩ := hedit he
      cases hx
      rfl
  | scan x =>
    cases hn : x.numPages P.storage.disk with
    | error e => exact hfails e (by simp only [Call.start, hn])
    | ok pages =>
      rcases collectNext_cases k.call x pages 0 [] with hnext | hnext
      · refine hgoes (.locking ⟨x.table, 0⟩ .shared (.collect x pages 0 []))
          (by simp only [Call.start, hn, hnext]) (by simp) ⟨trivial, ?_⟩
        rintro (hw | he)
        · exact hw.elim
        · obtain ⟨y, hy⟩ := hedit he
          cases hy
      · exact stepFits_same_finish (.ok (.rows [])) hi
          (hstart.trans (by simp only [Call.start, hn, hnext]))
  | insert table tuple =>
    cases hs : P.storage.store table with
    | error e => exact hfails e (by simp only [Call.start, hs])
    | ok s =>
      obtain ⟨x, rfl⟩ := hi.heaps.heap_of_store hs
      by_cases hw : k.call.tuple.data.size = x.layout.width
      · exact hgoes (.counting { heap := x })
          (by simp only [Call.start, hs, Call.startInsert, if_pos hw]) (by simp) trivial
      · exact hfails .wrongTupleWidth (by simp only [Call.start, hs, Call.startInsert, if_neg hw])
  | delete tuple =>
    cases hrid : tuple.recordId with
    | none => exact hfails .noRecordId (by simp only [Call.start, hrid])
    | some r =>
      cases hs : P.storage.store r.page.table with
      | error e => exact hfails e (by simp only [Call.start, hrid, hs])
      | ok s =>
        obtain ⟨x, rfl⟩ := hi.heaps.heap_of_store hs
        have hdel : k.call.start P (.delete tuple) = k.call.startDelete P r (.heap x) := by
          simp only [Call.start, hrid, hs]
        by_cases ht : r.page.table = x.table
        · by_cases hslot : x.layout.slots ≤ r.slot
          · exact hfails .slotOutOfRange (hdel.trans (by simp only [Call.startDelete, ht, ne_eq,
              not_true_eq_false, if_false, if_pos hslot]))
          · exact hgoes (.locking r.page .exclusive (.remove x r.slot))
              (hdel.trans (by simp only [Call.startDelete, ht, ne_eq, not_true_eq_false, if_false,
                if_neg hslot])) (by simp) ⟨trivial, fun _ => rfl⟩
        · exact hfails .foreignTuple (hdel.trans (by simp only [Call.startDelete, ne_eq, ht,
            not_false_eq_true, if_true]))
  | insertInto s tuple => exact hthrough.elim
  | deleteFrom s tuple => exact hthrough.elim
  | complete commit => exact absurd rfl (hr commit)

/-! ### Locks -/

theorem stepFits_attempt (hi : Accountable P A (Function.update tasks t none)) (hk : TaskFits P A t k)
    {m : Mode} {use : Use} (hstep : k.call.step P = k.call.attemptLock P p m use)
    (huse : UseFits P A t p use) (hmode : use.Writes ∨ k.rule.isSome = true → m = .exclusive) :
    StepFits A tasks t k P no no := by
  have hbase : Accountable (P.withLocks (P.locks.attempt p t m).1) A (Function.update tasks t none) := by
    refine hi.relock (u := t) (by simp) (hi.locks.attempt p t m) ?_ ?_
    · intro q s hs
      rw [LockTable.modeOf_attempt, if_neg fun hc => hs hc.2.2]
    · intro q hX
      refine .inl ?_
      rw [LockTable.modeOf_attempt]
      split
      · rename_i hc
        rw [← hc.2.1, hX, Mode.raised_exclusive]
      · exact hX
  have hgrant := P.locks.modeOf_attempt p t m p t
  rcases hatt : P.locks.attempt p t m with ⟨L, r⟩
  rw [hatt] at hbase hgrant
  have hA : Trail.after A (some t) P (P.withLocks L) no no = A := after_no_of_frames hi rfl
  rw [← hA] at hbase
  have huse' : UseFits (P.withLocks L) A t p use := by cases use <;> exact huse
  cases r with
  | granted =>
    rw [if_pos ⟨rfl, rfl, rfl⟩] at hgrant
    by_cases hhold : use = .holdLock
    · subst hhold
      exact stepFits_finish (.ok .done)
        (hstep.trans (by simp only [Call.attemptLock, hk.txn, hatt])) hbase
    · have hgo : k.call.attemptLock P p m use = (P.withLocks L, k.call.goOn (.fetching p use)) := by
        simp only [Call.attemptLock, hk.txn, hatt]
      refine stepFits_goOn hk (hstep.trans hgo) (by simp) rfl rfl hbase ?_
      rw [hA]
      refine ⟨huse', ?_, ?_⟩
      · show (L.modeOf p t).isSome = true
        rw [hgrant]
        rfl
      · intro hw
        show L.modeOf p t = some .exclusive
        rw [hgrant, hmode hw, Mode.raised_of_exclusive]
  | sleeps ticket =>
    refine stepFits_goOn hk (a := .sleeping ticket p m use)
      (hstep.trans (by simp only [Call.attemptLock, hk.txn, hatt])) (by simp) rfl rfl hbase ?_
    rw [hA]
    exact ⟨huse', hmode⟩
  | deadlock =>
    exact stepFits_finish (.error (.aborted t))
      (hstep.trans (by simp only [Call.attemptLock, hk.txn, hatt]; rfl)) hbase

theorem stepFits_dropping (hi : Accountable P A (Function.update tasks t none)) (hk : TaskFits P A t k)
    {i : Insertion} (ha : k.call.activity = .dropping i) : StepFits A tasks t k P no no := by
  have hclear : Clear P A t i.page := by
    have hfits := hk.activity
    rwa [ha] at hfits
  have hbase : Accountable (P.withLocks (P.locks.release i.page t).1) A
      (Function.update tasks t none) := by
    refine hi.relock (u := t) (by simp) (hi.locks.release i.page t) ?_ ?_
    · intro q s hs
      rw [LockTable.modeOf_release hi.locks, if_neg fun hc => hs hc.2]
    · intro q hX
      by_cases hq : q = i.page
      · exact .inr (hq ▸ hclear)
      · refine .inl ?_
        rw [LockTable.modeOf_release hi.locks, if_neg fun hc => hq hc.1, hX]
  have hA : Trail.after A (some t) P (P.withLocks (P.locks.release i.page t).1) no no = A :=
    after_no_of_frames hi rfl
  have hrel : P.releasePage i.page k.call.txn =
      (P.withLocks (P.locks.release i.page t).1, (P.locks.release i.page t).2) := by
    rw [hk.txn]
    rfl
  cases hr : (P.locks.release i.page t).2 with
  | error e =>
    rw [hr] at hrel
    exact stepFits_finish (.error e) (by simp only [Call.step, ha, hrel]; rfl) (hA.symm ▸ hbase)
  | ok u =>
    rw [hr] at hrel
    obtain ⟨a, htry, hne, hfit⟩ := activityFits_tryNext hbase hk.txn { i with next := i.next + 1 }
      k.rule.isSome
    exact stepFits_goOn hk (by simp only [Call.step, ha, hrel, htry]) hne rfl rfl (hA.symm ▸ hbase)
      (hA.symm ▸ hfit)

theorem stepFits_releasing (hi : Accountable P A (Function.update tasks t none)) (hk : TaskFits P A t k)
    {commit : Bool} {r : Except Error Unit} (ha : k.call.activity = .releasing commit r) :
    StepFits A tasks t k P no no := by
  have hclear : ∀ q, Clear P A t q := by
    have hfits := hk.activity
    rwa [ha] at hfits
  have hbase : Accountable (P.withLocks (P.locks.releaseAll t).1) A (Function.update tasks t none) := by
    refine hi.relock (u := t) (by simp) (hi.locks.releaseAll t) ?_ fun q _ => .inr (hclear q)
    intro q s hs
    rw [(LockTable.releaseAll_spec hi.locks t).2, if_neg hs]
  have hA : Trail.after A (some t) P (P.withLocks (P.locks.releaseAll t).1) no no = A :=
    after_no_of_frames hi rfl
  exact stepFits_goOn hk (a := .ending commit (Pool.bothOk r (P.releaseAll t).2))
    (by simp only [Call.step, ha, hk.txn]; rfl) (by simp) rfl rfl (hA.symm ▸ hbase) trivial

/-! ### Frames -/

theorem stepFits_fetching (hi : Accountable P A (Function.update tasks t none)) (hk : TaskFits P A t k)
    {use : Use} (ha : k.call.activity = .fetching p use) (hrule : k.rule = none) :
    StepFits A tasks t k P no no := by
  have hfits := hk.activity
  rw [ha] at hfits
  obtain ⟨huse, hheld, hX⟩ := hfits
  obtain ⟨Q, hm, hbase, -, ⟨e, hfetch⟩ | ⟨f, hfetch, hres, hclear⟩⟩ := hi.fetch (t := t) (by simp) hheld
  · exact stepFits_finish (.error e) (by simp only [Call.step, ha, hfetch]; rfl) hbase
  · refine stepFits_goOn hk (a := .working p f use) (by simp only [Call.step, ha, hfetch])
      (by simp) rfl rfl hbase ⟨by rw [hrule]; rfl, ?_, ?_⟩
    · cases use with
      | place i => exact ⟨huse.1, fun hb => hclear t (huse.2 hb)⟩
      | holdLock => trivial
      | deliver => trivial
      | collect x pages next rows => trivial
      | remove x slot => trivial
    · intro hw
      obtain ⟨hlt, hid⟩ := hm.filed p f hres
      exact ⟨hlt, hid, by rw [hm.locks]; exact hX (.inl hw), .inr hres, hbase.accounted p f hres⟩

/-- A call that has written to its frame goes on to install it. -/
theorem stepFits_draft (hi : Accountable P A (Function.update tasks t none)) (hg : Grip P A t p f)
    {d : PageData} {c : Call}
    (hstep : k.call.step P = (P.setPage f ((P.page f).withData d), c.changed [f]))
    (htxn : c.txn = t) (hinst : c.installs = true) : StepFits A tasks t k P no no := by
  have hself : (P.setPage f ((P.page f).withData d)).page f = (P.page f).withData d := by
    rw [Pool.page_setPage, if_pos ⟨rfl, hg.index_lt⟩]
  have hX : P.locks.modeOf ((P.page f).withData d).id t = some .exclusive := by
    rw [Page.withData_id, hg.id_eq, hg.exclusive]
  have hm : Moved (some t) (fun _ => False) P (P.setPage f ((P.page f).withData d)) :=
    (Moved.refl hi).setPage hX rfl (.inl rfl)
  have hc : c.changed [f] = c.goOn (.installing [f]) := by simp only [Call.changed, hinst, if_true]
  have hafter : k.after (P.setPage f ((P.page f).withData d)) (c.changed [f]) =
      some { k with
        call := c.goOn (.installing [f])
        draft := k.nextDraft (P.setPage f ((P.page f).withData d)) } := by
    rw [hc]
    rfl
  have hnone : ∀ u k', some t = some u → Function.update tasks t none u ≠ some k' := by
    intro u k' hu
    rw [← Option.some.inj hu]
    simp
  rw [StepFits, hstep]
  dsimp only
  rw [hafter]
  refine hi.move hm ?_ (fun g hg => hg.elim) (fun g hg => by cases hg)
    (fun u k' g hu hk' => absurd hk' (hnone u k' hu)) ?_ ?_
  · intro u hu
    have hut : u ≠ t := fun h => hu (by rw [h])
    simp [hut]
  · intro u q g hu hres hsettled _ hne
    obtain rfl := Option.some.inj hu
    have hgf : g = f := by
      by_contra hgf
      have hlt := (hi.filed q g hres).1
      apply hne
      rw [Pool.prior_of_lt hlt, Pool.page_setPage_of_ne _ _ hgf]
    exact ⟨_, Function.update_self t _ _, [], by rw [hgf]; rfl⟩
  · intro u k' hu hk'
    obtain rfl := Option.some.inj hu
    rw [Function.update_self] at hk'
    obtain rfl := Option.some.inj hk'
    refine ⟨htxn, hinst, ?_⟩
    show Grip _ _ t ((P.setPage f ((P.page f).withData d)).page f).id f
    rw [hself, Page.withData_id, hg.id_eq]
    refine ⟨by rw [Pool.size_setPage]; exact hg.index_lt, by rw [hself]; exact hg.id_eq,
      hg.exclusive, hg.resident, ?_⟩
    have ht := hm.touched f (by rw [Pool.size_setPage]; exact hg.index_lt)
    rw [Pool.prior_of_lt hg.index_lt] at ht
    rw [Trail.after, if_pos hg.index_lt, Pool.prior_of_lt hg.index_lt]
    exact hg.accounted.next ht fun h => by cases h

theorem stepFits_working (hi : Accountable P A (Function.update tasks t none)) (hk : TaskFits P A t k)
    {use : Use} (ha : k.call.activity = .working p f use) : StepFits A tasks t k P no no := by
  have hfits := hk.activity
  rw [ha] at hfits
  obtain ⟨hplain, huse, hgrip⟩ := hfits
  have hstep : k.call.step P = k.call.useFrame P p f use := by simp only [Call.step, ha]
  have hends : ∀ r, k.call.useFrame P p f use = (P, k.call.finish r) → StepFits A tasks t k P no no :=
    fun r hr => stepFits_same_finish r hi (hstep.trans hr)
  cases use with
  | holdLock => exact hends (.ok .done) rfl
  | deliver => exact hends (.ok (.frame f)) rfl
  | collect x pages next rows =>
    rcases collectNext_cases k.call x pages (next + 1)
      (rows ++ x.layout.tuples p (P.page f).data) with hnext | hnext
    · refine stepFits_same_goOn hi hk (a := .locking ⟨x.table, next + 1⟩ .shared (.collect x pages
        (next + 1) (rows ++ x.layout.tuples p (P.page f).data)))
        (hstep.trans (by simp only [Call.useFrame, hnext])) (by simp) ⟨trivial, ?_⟩
      rintro (hw | he)
      · exact hw.elim
      · rw [hplain] at he
        cases he
    · exact hends (.ok (.rows (rows ++ x.layout.tuples p (P.page f).data)))
        (by simp only [Call.useFrame, hnext])
  | place i =>
    obtain ⟨hpage, hclear⟩ := huse
    cases hslot : i.heap.layout.freeSlot (P.page f).data with
    | some slot =>
      refine stepFits_draft (d := i.heap.layout.place (P.page f).data slot k.call.tuple.data)
        (c := { k.call with tuple := { k.call.tuple with recordId := some ⟨i.page, slot⟩ } })
        hi (hgrip trivial) ?_ hk.txn hk.installs
      simp only [hstep, Call.useFrame, Call.place, hslot]
    | none =>
      cases hheld : i.heldBefore with
      | true =>
        obtain ⟨a, htry, hne, hfit⟩ := activityFits_tryNext hi hk.txn { i with next := i.next + 1 }
          k.rule.isSome
        exact stepFits_same_goOn hi hk (hstep.trans (by
          simp only [Call.useFrame, Call.place, hslot, ← htry, hheld, if_true])) hne hfit
      | false =>
        refine stepFits_same_goOn hi hk (a := .dropping i) (hstep.trans (by
          simp only [Call.useFrame, Call.place, hslot, hheld, Bool.false_eq_true, if_false]))
          (by simp) ?_
        show Clear P A t i.page
        rw [hpage]
        exact hclear hheld
  | remove x slot =>
    by_cases hused : SlotLayout.isUsed (P.page f).data slot = true
    · refine stepFits_draft (d := SlotLayout.setUsed (P.page f).data slot false) (c := k.call)
        hi (hgrip trivial) ?_ hk.txn hk.installs
      simp only [hstep, Call.useFrame, Call.remove, if_pos hused]
    · exact hends (.error .noTuple) (by simp only [Call.useFrame, Call.remove, if_neg hused]; rfl)

/-! ### Files -/

theorem stepFits_counting (hi : Accountable P A (Function.update tasks t none)) (hk : TaskFits P A t k)
    {i : Insertion} (ha : k.call.activity = .counting i) : StepFits A tasks t k P no no := by
  cases hn : i.heap.numPages P.storage.disk with
  | error e => exact stepFits_same_finish (.error e) hi (by simp only [Call.step, ha, hn]; rfl)
  | ok pages =>
    obtain ⟨a, htry, hne, hfit⟩ := activityFits_tryNext hi hk.txn { i with pages } k.rule.isSome
    exact stepFits_same_goOn hi hk (by simp only [Call.step, ha, hn, htry]) hne hfit

theorem stepFits_growing (hi : Accountable P A (Function.update tasks t none)) (hk : TaskFits P A t k)
    {i : Insertion} (ha : k.call.activity = .growing i) : StepFits A tasks t k P no no := by
  rcases happ : i.heap.append P.storage.disk i.pages with ⟨disk, r⟩
  have hA : Trail.after A (some t) P { P with storage := { P.storage with disk } } no no = A :=
    after_no_of_frames hi rfl
  have hbase : Accountable { P with storage := { P.storage with disk } } A
      (Function.update tasks t none) :=
    hi.still rfl (hi.heaps.congr rfl) rfl fun _ _ h => h
  rw [← hA] at hbase
  cases r with
  | error e => exact stepFits_finish (.error e) (by simp only [Call.step, ha, happ]; rfl) hbase
  | ok u =>
    exact stepFits_goOn hk (a := .counting i) (by simp only [Call.step, ha, happ]) (by simp) rfl rfl
      hbase trivial

/-! ### Installing -/

/-- **An install marks the frame of its call**, which is settled no longer. -/
theorem stepFits_installing (hi : Accountable P A tasks) (ht : tasks t = some k)
    (ha : k.call.activity = .installing [f]) : StepFits A tasks t k P no no := by
  have hk := hi.fits t k ht
  have hg : Grip P A t (P.page f).id f := by
    have hfits := hk.activity
    rwa [ha] at hfits
  have hmark : Moved (some t) (fun g => g = f) P (P.setPage f ((P.page f).markDirty t)) :=
    (Moved.refl hi).setPage hg.exclusive rfl (.inr rfl)
  have hself : (P.setPage f ((P.page f).markDirty t)).page f = (P.page f).markDirty t := by
    rw [Pool.page_setPage, if_pos ⟨rfl, hg.index_lt⟩]
  have hpages : ∀ g, ((P.setPage f ((P.page f).markDirty t)).page g).data = (P.page g).data := by
    intro g
    rw [Pool.page_setPage]
    split
    · rename_i hgf
      rw [hgf.1]
      rfl
    · rfl
  -- Whatever becomes of its place in the cache, the frame is marked, and no data has changed.
  have hbase : ∀ {Q : Pool Tables}, Moved (some t) (fun g => g = f) P Q →
      Q.frames = (P.setPage f ((P.page f).markDirty t)).frames →
      Accountable Q (Trail.after A (some t) P Q no no) (Function.update tasks t none) := by
    intro Q hm hframes
    have hsize : Q.frames.size = P.frames.size := by rw [hframes]; exact Pool.size_setPage P f _
    refine hi.move hm ?_ ?_ (fun g hg => by cases hg) ?_ ?_ ?_
    · intro u hu
      have hut : u ≠ t := fun h => hu (by rw [h])
      simp [hut]
    · rintro g rfl
      exact ⟨t, k, rfl, ht, [], ha⟩
    · rintro u k' g hu hk' ⟨fs, hfs⟩
      obtain rfl := Option.some.inj hu
      obtain rfl := Option.some.inj (ht.symm.trans hk')
      obtain ⟨rfl, -⟩ : f = g ∧ [] = fs := by simpa [ha] using hfs
      rw [Pool.page_congr hframes, hself]
      rfl
    · intro u q g _ hres _ _ hne
      have hlt := (hm.filed q g hres).1
      rw [hsize] at hlt
      rw [Pool.prior_of_lt hlt, Pool.page_congr hframes] at hne
      exact absurd (hpages g) hne
    · intro u k' hu hk'
      obtain rfl := Option.some.inj hu
      simp at hk'
  rcases Pool.install_cases P t f with ⟨-, hinst⟩ | ⟨g, hres, hgf, -⟩ | ⟨-, R, hR, hinst⟩
  · exact stepFits_goOn hk (a := .installing []) (by simp only [Call.step, ha, hk.txn, hinst]) (by simp)
      rfl rfl (hbase hmark rfl) trivial
  · rcases hg.resident with hnone | hf
    · rw [hnone] at hres
      cases hres
    · exact absurd (Option.some.inj (hres.symm.trans hf)) hgf
  · have hroom := hmark.shrunk hR
    rcases hinst with ⟨e, hinst⟩ | hinst
    · exact stepFits_finish (.error e) (by simp only [Call.step, ha, hk.txn, hinst]; rfl)
        (hbase hroom hR.frames)
    · have hcached : Moved (some t) (fun g => g = f) P (R.cache (P.page f).id f) := by
        refine hroom.cache (by rw [hg.exclusive]; rfl) ?_ ?_ (.inr rfl)
        · rw [hR.frames, Pool.size_setPage]
          exact hg.index_lt
        · rw [Pool.page_congr hR.frames, hself]
          rfl
      exact stepFits_goOn hk (a := .installing []) (by simp only [Call.step, ha, hk.txn, hinst])
        (by simp) rfl rfl (hbase hcached hR.frames) trivial

/-! ### All of them -/

theorem stepFits_ending (hi : Accountable P A (Function.update tasks t none)) {commit : Bool}
    {r : Except Error Unit} (ha : k.call.activity = .ending commit r) : StepFits A tasks t k P no no := by
  have hstep : k.call.step P = (P.countEnd commit, k.call.finish (r.map fun _ => .done)) := by
    simp only [Call.step, ha]
  have hA : Trail.after A (some t) P (P.countEnd commit) no no = A := after_no_of_frames hi rfl
  refine stepFits_finish _ hstep (hA.symm ▸ ?_)
  exact hi.still rfl hi.heaps rfl fun _ _ h => h

/-- **Every section but the end of a transaction answers for what it changes.** -/
theorem stepFits (hi : Accountable P A tasks) (ht : tasks t = some k)
    (hend : ∀ commit, k.call.activity ≠ .start (.complete commit))
    (hrule : ∀ p use, k.call.activity = .fetching p use → k.rule = none) :
    StepFits A tasks t k P no no := by
  have hk := hi.fits t k ht
  -- Only an install has a frame of its own that is about to be installed.
  have hquiet : (∀ g, ¬k.call.activity.Changes g) → Accountable P A (Function.update tasks t none) := by
    intro hno
    refine hi.retire ?_
    intro k' g hk'
    obtain rfl := Option.some.inj (ht.symm.trans hk')
    exact hno g
  cases ha : k.call.activity with
  | start r =>
    exact stepFits_start (hquiet fun g hg => by simp [Activity.Changes, ha] at hg) hk ha
      fun commit hr => hend commit (by rw [ha, hr])
  | locking p m use =>
    have hfits := hk.activity
    rw [ha] at hfits
    exact stepFits_attempt (hquiet fun g hg => by simp [Activity.Changes, ha] at hg) hk
      (by simp only [Call.step, ha]) hfits.1 hfits.2
  | sleeping ticket p m use =>
    have hfits := hk.activity
    rw [ha] at hfits
    have hi' := hquiet fun g hg => by simp [Activity.Changes, ha] at hg
    by_cases hs : P.locks.sleeps ticket = true
    · exact stepFits_same_goOn hi' hk (a := .sleeping ticket p m use)
        (by simp only [Call.step, ha, if_pos hs, Call.goOn]; rw [← ha]) (by simp) hfits
    · exact stepFits_attempt hi' hk (by simp only [Call.step, ha, if_neg hs]) hfits.1 hfits.2
  | fetching p use =>
    exact stepFits_fetching (hquiet fun g hg => by simp [Activity.Changes, ha] at hg) hk ha
      (hrule p use ha)
  | working p f use =>
    exact stepFits_working (hquiet fun g hg => by simp [Activity.Changes, ha] at hg) hk ha
  | dropping i =>
    exact stepFits_dropping (hquiet fun g hg => by simp [Activity.Changes, ha] at hg) hk ha
  | counting i =>
    exact stepFits_counting (hquiet fun g hg => by simp [Activity.Changes, ha] at hg) hk ha
  | growing i =>
    exact stepFits_growing (hquiet fun g hg => by simp [Activity.Changes, ha] at hg) hk ha
  | installing fs =>
    cases fs with
    | nil =>
      exact stepFits_same_finish (.ok .done)
        (hquiet fun g hg => by simp [Activity.Changes, ha] at hg) (by simp only [Call.step, ha])
    | cons f fs =>
      obtain ⟨hone, -⟩ := hk.activity.grip ⟨fs, ha⟩
      exact stepFits_installing hi ht hone
  | releasing commit r =>
    exact stepFits_releasing (hquiet fun g hg => by simp [Activity.Changes, ha] at hg) hk ha
  | ending commit r =>
    exact stepFits_ending (hquiet fun g hg => by simp [Activity.Changes, ha] at hg) ha
  | finished r =>
    exact stepFits_same_finish r (hquiet fun g hg => by simp [Activity.Changes, ha] at hg)
      (by simp only [Call.step, ha, Call.finish, Call.goOn]; rw [← ha])

end Sections

end PageEngine
