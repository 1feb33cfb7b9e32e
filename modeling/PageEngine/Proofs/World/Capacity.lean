import PageEngine.Proofs.Pool.Bounds
import PageEngine.Proofs.World.Basic

/-!
# `Proofs/World/Capacity.lean` — the sections of calls as operations of the cache

What a section of a call does to the pool is a sequence of cache operations (`Call.step_reaches`), as long as
the images that the call works with exist, and so is what a client does that overwrites a page. So whatever
is true of every sequence of operations is true of every run of the engine:

> **a run of calls is a run of cache operations**, and each step of it keeps within the capacity (`World.Kept.act`),

whatever kinds of requests are made, and whatever the files hold.
-/

set_option autoImplicit false

namespace PageEngine

open Std

/-- The images that an answer hands out. -/
def Answer.images : Answer → List FrameId
  | .frame f => [f]
  | .frames fs => fs
  | _ => []

/-- The images that a call works with in its next section, or hands out. -/
def Activity.images : Activity → List FrameId
  | .working _ f _ => [f]
  | .installing fs => fs
  | .finished (.ok a) => a.images
  | _ => []

namespace Call

/-- The images that a call works with exist. -/
def Holds (c : Call) (P : Pool Tables) : Prop := ∀ f ∈ c.activity.images, f.index < P.frames.size

variable {c : Call} {P Q : Pool Tables}

theorem Holds.mono (h : c.Holds P) (hle : P.frames.size ≤ Q.frames.size) : c.Holds Q :=
  fun f hf => Nat.lt_of_lt_of_le (h f hf) hle

theorem Holds.of_none (h : c.activity.images = []) (P : Pool Tables) : c.Holds P := by
  intro f hf
  rw [h] at hf
  exact absurd hf List.not_mem_nil

/-- A section turns the pool into one that operations lead to, and its call works with images that exist. -/
def Reaches (P : Pool Tables) (r : Pool Tables × Call) : Prop := P.Reaches r.1 ∧ r.2.Holds r.1

theorem Reaches.same (h : c.activity.images = []) : Reaches P (P, c) := ⟨.refl, .of_none h P⟩

theorem Reaches.op {o : CacheOp Tables} (ho : o.Allowed P) (h : c.activity.images = []) :
    Reaches P (o.run P, c) := ⟨Pool.Reaches.refl.step ho, .of_none h _⟩

@[simp] theorem images_changed (c : Call) (fs : List FrameId) :
    (c.changed fs).activity.images = fs := by
  unfold changed
  split <;> rfl

theorem Holds.changed {fs : List FrameId} (h : ∀ f ∈ fs, f.index < P.frames.size) :
    (c.changed fs).Holds P := by
  intro f hf
  rw [images_changed] at hf
  exact h f hf

theorem images_tryNext (c : Call) (P : Pool Tables) (i : Insertion) :
    (c.tryNext P i).activity.images = [] := by
  unfold tryNext
  split <;> rfl

theorem images_collectNext (c : Call) (h : HeapFile) (pages next : Nat) (rows : List Tuple) :
    (c.collectNext h pages next rows).activity.images = [] := by
  unfold collectNext
  split <;> rfl

/-! ## Sections -/

theorem touchFresh_reaches (h : HeapFile) : ∀ (ns : List Nat) (P : Pool Tables) (fs : List FrameId),
    (∀ f ∈ fs, f.index < P.frames.size) → P.Reaches (touchFresh P h ns fs).1 ∧
      ∀ gs, (touchFresh P h ns fs).2 = .ok gs →
        ∀ f ∈ gs, f.index < (touchFresh P h ns fs).1.frames.size := by
  intro ns
  induction ns with
  | nil =>
    intro P fs hfs
    exact ⟨.refl, fun gs hgs => by obtain rfl := Except.ok.inj hgs; exact hfs⟩
  | cons n ns ih =>
    intro P fs hfs
    unfold touchFresh
    split
    · exact ⟨.refl, fun gs hgs => by cases hgs⟩
    · rename_i x _
      dsimp only
      generalize x.withData (x.data.setByte (pageSize - 1) (x.data.byte (pageSize - 1) + 1)) = y
      have hfs' : ∀ f ∈ fs ++ [P.nextFrame], f.index < (P.addFrame y).frames.size := by
        intro f hf
        rcases List.mem_append.1 hf with hmem | hmem
        · exact Nat.lt_of_lt_of_le (hfs f hmem) (P.sameCache_addFrame y).frames
        · rw [List.mem_singleton.1 hmem]
          simp [Pool.addFrame, Pool.nextFrame]
      obtain ⟨hreach, hgs⟩ := ih (P.addFrame y) (fs ++ [P.nextFrame]) hfs'
      exact ⟨(Pool.Reaches.refl.step (o := .make y) trivial).trans hreach, hgs⟩

theorem touch_reaches (c : Call) (P : Pool Tables) (h : HeapFile) (ns : List Nat) :
    Reaches P (c.touch P h ns) := by
  obtain ⟨hreach, hgs⟩ := touchFresh_reaches h ns P [] (fun f hf => absurd hf List.not_mem_nil)
  unfold touch
  split
  · rename_i hQ
    rw [hQ] at hreach
    exact ⟨hreach, .of_none rfl _⟩
  · rename_i hQ
    rw [hQ] at hreach hgs
    exact ⟨hreach, .changed (hgs _ rfl)⟩

theorem startInsert_reaches (c : Call) (P : Pool Tables) (s : Store) : Reaches P (c.startInsert P s) := by
  unfold startInsert
  split
  · split <;> exact .same rfl
  · exact c.touch_reaches P _ _

theorem startDelete_reaches (c : Call) (P : Pool Tables) (r : RecordId) (s : Store) :
    Reaches P (c.startDelete P r s) := by
  unfold startDelete
  split
  · repeat' split
    all_goals exact .same rfl
  · exact c.touch_reaches P _ _

theorem start_reaches (c : Call) (P : Pool Tables) (r : Request) : Reaches P (c.start P r) := by
  cases r with
  | lock p m => exact .same rfl
  | get p a => exact .same rfl
  | scan h =>
    simp only [start]
    split
    · exact .same rfl
    · exact .same (c.images_collectNext h _ _ _)
  | insert table tuple =>
    simp only [start]
    split
    · exact .same rfl
    · exact c.startInsert_reaches P _
  | delete tuple =>
    simp only [start]
    split
    · exact .same rfl
    · split
      · exact .same rfl
      · exact c.startDelete_reaches P _ _
  | insertInto s tuple => exact c.startInsert_reaches P s
  | deleteFrom s tuple =>
    simp only [start]
    split
    · exact c.startDelete_reaches P _ _
    · exact .same rfl
    · exact c.touch_reaches P _ _
  | complete commit => exact Reaches.op (o := .settle c.txn commit) trivial rfl

theorem attemptLock_reaches (c : Call) (P : Pool Tables) (p : PageId) (m : Mode) (use : Use) :
    Reaches P (c.attemptLock P p m use) := by
  unfold attemptLock
  split
  · refine Reaches.op (o := .relock _) trivial ?_
    split <;> rfl
  · exact Reaches.op (o := .relock _) trivial rfl
  · exact Reaches.op (o := .relock _) trivial rfl

theorem useFrame_reaches (c : Call) (P : Pool Tables) (p : PageId) {f : FrameId}
    (hf : f.index < P.frames.size) (use : Use) : Reaches P (c.useFrame P p f use) := by
  have hset : ∀ d, (P.setPage f ((P.page f).withData d)).frames.size = P.frames.size :=
    fun d => P.size_setPage f _
  have hchange : ∀ (c : Call) (d : PageData),
      Reaches P (P.setPage f ((P.page f).withData d), c.changed [f]) := fun c d =>
    ⟨Pool.Reaches.refl.step (o := .touch f _) rfl, .changed fun g hg => by
      rw [List.mem_singleton.1 hg, hset]
      exact hf⟩
  cases use with
  | holdLock => exact .same rfl
  | deliver => exact ⟨.refl, fun g hg => by rw [List.mem_singleton.1 hg]; exact hf⟩
  | collect h pages next rows => exact .same (c.images_collectNext h _ _ _)
  | place i =>
    simp only [useFrame, place]
    split
    · exact hchange _ _
    · split
      · exact .same (c.images_tryNext P _)
      · exact .same rfl
  | remove h slot =>
    simp only [useFrame, remove]
    split
    · exact hchange _ _
    · exact .same rfl

theorem fetch_index {p : PageId} {f : FrameId} (hP : P.Filed) (h : P.fetch p = (Q, .ok f)) :
    f.index < Q.frames.size := by
  rcases P.fetch_reads p with ⟨R, g, hR, hg, -, hfetch⟩ | ⟨R, e, -, hfetch⟩ | ⟨R, x, -, -, -, hfetch⟩
  all_goals
    rw [hfetch, Prod.mk.injEq] at h
    obtain ⟨rfl, hf⟩ := h
  · obtain rfl := Except.ok.inj hf
    rw [hR.frames]
    exact (hP p g hg).1
  · cases hf
  · obtain rfl := Except.ok.inj hf
    simp [Pool.cache, Pool.addFrame, Pool.nextFrame]

/-- **What a section does to the pool is a sequence of cache operations.** -/
theorem step_reaches (hP : P.Filed) (hc : c.Holds P) : Reaches P (c.step P) := by
  unfold step
  split
  · exact c.start_reaches P _
  · exact c.attemptLock_reaches P _ _ _
  · split
    · exact ⟨.refl, hc⟩
    · exact c.attemptLock_reaches P _ _ _
  · split
    · rename_i hQ
      exact ⟨.of_fetch hQ, .of_none rfl _⟩
    · rename_i Q f hQ
      have hlt := fetch_index hP hQ
      exact ⟨.of_fetch hQ, fun g hg => by rw [List.mem_singleton.1 hg]; exact hlt⟩
  · rename_i p f use ha
    exact c.useFrame_reaches P p (hc f (by simp [ha, Activity.images])) use
  · rename_i i _
    have hop : P.Reaches (P.releasePage i.page c.txn).1 := Pool.Reaches.refl.step (o := .relock _) trivial
    split
    · rename_i hQ
      rw [hQ] at hop
      exact ⟨hop, .of_none rfl _⟩
    · rename_i Q hQ
      rw [hQ] at hop
      exact ⟨hop, .of_none (c.images_tryNext Q _) _⟩
  · split
    · exact .same rfl
    · exact .same (c.images_tryNext P _)
  · split
    · exact Reaches.op (o := .restock _) trivial rfl
    · exact Reaches.op (o := .restock _) trivial rfl
  · exact .same rfl
  · rename_i f fs ha
    have hfs : ∀ g ∈ f :: fs, g.index < P.frames.size := fun g hg => hc g (by rw [ha]; exact hg)
    have hop : P.Reaches (P.install c.txn f).1 :=
      Pool.Reaches.refl.step (o := .install c.txn f) (hfs f List.mem_cons_self)
    have hsize := P.size_install c.txn f
    split
    · rename_i hQ
      rw [hQ] at hop
      exact ⟨hop, .of_none rfl _⟩
    · rename_i hQ
      rw [hQ] at hop hsize
      exact ⟨hop, fun g hg => hsize ▸ hfs g (List.mem_cons_of_mem f hg)⟩
  · exact Reaches.op (o := .relock _) trivial rfl
  · rename_i r _
    exact Reaches.op (o := .countEnd _) trivial (by cases r <;> rfl)
  · exact ⟨.refl, hc⟩

theorem images_ofRequest (t : TxnId) (r : Request) : (ofRequest t r).activity.images = [] := by
  cases r <;> rfl

theorem live_ofRequest (t : TxnId) (r : Request) : (ofRequest t r).result? = none := by
  cases r <;> rfl

end Call

theorem Task.call_of_after {k k' : Task} {Q : Pool Tables} {c : Call} (h : k.after Q c = some k') :
    k'.call = c := by
  unfold after at h
  split at h
  · cases h
  · exact (congrArg Task.call (Option.some.inj h)).symm

namespace World

variable {kind : Action → Prop} {P : Pool Tables} {w : World} {t : TxnId}

theorem editPage_reaches (w : World) (t : TxnId) (p : PageId) (rule : Rule) :
    w.pool.Reaches (w.editPage t p rule).pool := by
  unfold editPage
  split
  · rename_i hQ
    exact .of_fetch hQ
  · rename_i hQ
    exact (Pool.Reaches.of_fetch hQ).step (o := .touch _ _) rfl

/-- What holds of a run at any time: the pool keeps within its bound, and the calls in flight work with images
that exist. -/
structure Kept (n : Nat) (w : World) : Prop where
  pool : Pool.Bounded n w.pool
  calls : ∀ t k, w.tasks t = some k → k.call.Holds w.pool

/-- The pool moves on, and one transaction has another call or none. -/
theorem Kept.move {n : Nat} (hn : 0 < n) (hw : Kept n w) {Q : Pool Tables} (hQ : w.pool.Reaches Q)
    {k : Option Task} (hk : ∀ k', k = some k' → k'.call.Holds Q) (h : History) :
    Kept n { pool := Q, tasks := Function.update w.tasks t k, history := h } where
  pool := hQ.bounded Pool.readsOwn_tables hn hw.pool
  calls u k' hk' := by
    dsimp only at hk'
    by_cases hu : u = t
    · subst hu
      exact hk k' (by simpa using hk')
    · rw [Function.update_of_ne hu] at hk'
      exact (hw.calls u k' hk').mono (hQ.frames_le Pool.readsOwn_tables hn hw.pool)

theorem Kept.advance {n : Nat} (hn : 0 < n) (hw : Kept n w) (t : TxnId) : Kept n (w.advance t) := by
  unfold World.advance
  split
  · exact hw
  · rename_i k hk
    split
    · rename_i rule p use _ _
      have hreach := w.editPage_reaches t p rule
      unfold editPage at hreach ⊢
      split at hreach
      · exact hw.move hn hreach (fun k' hk' => by cases hk') _
      · exact hw.move hn hreach (fun k' hk' => by cases hk') _
    · obtain ⟨hreach, hholds⟩ := Call.step_reaches hw.pool.filed (hw.calls t k hk)
      exact hw.move hn hreach (fun k' hk' => Task.call_of_after hk' ▸ hholds) _

theorem Kept.act {n : Nat} (hn : 0 < n) (hw : Kept n w) (a : Action) : Kept n (w.act a) := by
  cases a with
  | request t r =>
    exact hw.move hn .refl (fun k' hk' => Option.some.inj hk' ▸ .of_none (Call.images_ofRequest t r) _) _
  | edit t p rule => exact hw.move hn .refl (fun k' hk' => Option.some.inj hk' ▸ .of_none rfl _) _
  | advance t => exact hw.advance hn t
  | register h =>
    have hreach := Pool.Reaches.of_restock w.pool (w.pool.storage.register (.heap h))
    exact ⟨hreach.bounded Pool.readsOwn_tables hn hw.pool, fun t k hk =>
      (hw.calls t k hk).mono (hreach.frames_le Pool.readsOwn_tables hn hw.pool)⟩

theorem kept_start {capacity : Nat} {draws : Draws} {d : Tables} (hP : Pool.create capacity draws d = .ok P) :
    Kept capacity (start P) :=
  ⟨(Pool.bounded_create hP).2, fun t k hk => by cases hk⟩

end World

end PageEngine
