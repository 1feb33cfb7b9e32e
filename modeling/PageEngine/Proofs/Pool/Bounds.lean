import PageEngine.Options
import PageEngine.Proofs.Pool.Room

/-!
# `Proofs/Pool/Bounds.lean` — a bounded cache that keeps its dirty pages

What can happen to a pool is cut into atomic operations (`CacheOp`): the sections of its own calls, and what
happens around it. Clients change the images that they were handed, stores make images of their own, and the
storage and the locks change as they like. Any call on the storage may fail.

> **a dirty page leaves the cache only if it is discarded or replaced by another image of the same page**
> that a store has handed in, and the cache never holds more pages than it may.

Every operation is described once, by what becomes of each page (`Fate`); the bound and the fate of dirty
pages are read off that. No image is touched while an operation runs.
-/

set_option autoImplicit false

namespace PageEngine

open Std

/-! ## Operations -/

/-- What can happen to a pool at once. -/
inductive CacheOp (δ : Type) where
  /-- A page is fetched into the cache. -/
  | fetch (p : PageId)
  /-- An image that a store has changed is marked and cached. -/
  | install (t : TxnId) (f : FrameId)
  /-- The dirty pages of a list are written. -/
  | flush (ps : List PageId)
  /-- The pages of a transaction are committed or restored. -/
  | settle (t : TxnId) (commit : Bool)
  | discard (p : PageId)
  | countEnd (commit : Bool)
  /-- Locks are asked for and given back. -/
  | relock (L : LockTable)
  /-- A client changes an image. -/
  | touch (f : FrameId) (x : Page)
  /-- A store makes an image. -/
  | make (x : Page)
  /-- The storage changes. -/
  | restock (s : δ)

namespace CacheOp

variable {δ : Type}

/-- The pool after an operation, also after one that fails. -/
def run [Storage δ] (P : Pool δ) : CacheOp δ → Pool δ
  | fetch p => (P.fetch p).1
  | install t f => (P.install t f).1
  | flush ps => (P.flushIn ps).1
  | settle t commit => (P.settlePages t commit).1
  | discard p => P.discard p
  | countEnd commit => P.countEnd commit
  | relock L => P.withLocks L
  | touch f x => P.setPage f x
  | make x => P.addFrame x
  | restock s => { P with storage := s }

/-- Only images that exist are installed, and no page of another name is put behind an image. -/
def Allowed (P : Pool δ) : CacheOp δ → Prop
  | install _ f => f.index < P.frames.size
  | touch f x => x.id = (P.page f).id
  | _ => True

end CacheOp

/-- The pools to which operations lead. -/
inductive Pool.Reaches {δ : Type} [Storage δ] (P₀ : Pool δ) : Pool δ → Prop
  | refl : Reaches P₀ P₀
  | step {P : Pool δ} {o : CacheOp δ} : Reaches P₀ P → o.Allowed P → Reaches P₀ (o.run P)

/-- Every page that is read is the one that was asked for. -/
def ReadsOwn (δ : Type) [Storage δ] : Prop :=
  ∀ (s s' : δ) (p : PageId) (x : Page), Storage.readPage s p = (s', .ok x) → x.id = p

namespace Pool

/-! ## What becomes of the cached pages -/

section Fates

variable {δ : Type}

/-- What becomes of a page by an operation that turns the pool `P` into `P'`. -/
inductive Fate (o : CacheOp δ) (P P' : Pool δ) (p : PageId) : Prop
  | stays (h : P'.resident[p]? = P.resident[p]?)
  /-- It is evicted, which happens to clean pages. -/
  | evicted (f : FrameId) (hf : P.resident[p]? = some f) (hclean : (P.page f).dirty = none)
      (h : P'.resident[p]? = none)
  /-- An image of it comes in, in the place of none or of another one that is replaced. -/
  | enters (f : FrameId) (h : P'.resident[p]? = some f) (hlt : f.index < P'.frames.size)
      (hid : (P'.page f).id = p) (hfrom : P.resident[p]? = none ∨ ∃ t, o = .install t f)
  | discarded (ho : o = .discard p) (h : P'.resident[p]? = none)

/-- What an operation does to the cache. -/
structure Effect (o : CacheOp δ) (P P' : Pool δ) : Prop where
  capacity : P'.capacity = P.capacity
  size : P'.resident.size ≤ P.capacity
  frames : P.frames.size ≤ P'.frames.size
  ids : ∀ f : FrameId, f.index < P.frames.size → (P'.page f).id = (P.page f).id
  fate : ∀ p, Fate o P P' p

/-- The pools have the same pages in their caches, and no image has got another name. -/
structure SameCache (P P' : Pool δ) : Prop where
  capacity : P'.capacity = P.capacity
  resident : P'.resident = P.resident
  frames : P.frames.size ≤ P'.frames.size
  ids : ∀ f : FrameId, f.index < P.frames.size → (P'.page f).id = (P.page f).id

variable {P Q R : Pool δ} {o : CacheOp δ}

theorem SameCache.refl (P : Pool δ) : SameCache P P := ⟨rfl, rfl, Nat.le_refl _, fun _ _ => rfl⟩

theorem SameCache.trans (h : SameCache P Q) (h' : SameCache Q R) : SameCache P R where
  capacity := h'.capacity.trans h.capacity
  resident := h'.resident.trans h.resident
  frames := Nat.le_trans h.frames h'.frames
  ids f hf := (h'.ids f (Nat.lt_of_lt_of_le hf h.frames)).trans (h.ids f hf)

theorem SameCache.effect (h : SameCache P Q) (hsize : P.resident.size ≤ P.capacity) : Effect o P Q :=
  ⟨h.capacity, h.resident ▸ hsize, h.frames, h.ids, fun p => .stays (by rw [h.resident])⟩

theorem sameCache_setPage {f : FrameId} {x : Page} (hid : x.id = (P.page f).id) :
    SameCache P (P.setPage f x) := by
  refine ⟨rfl, rfl, Nat.le_of_eq (size_setPage P f x).symm, fun g _ => ?_⟩
  rw [page_setPage]
  split
  · rename_i hg
    rw [hg.1, hid]
  · rfl

theorem sameCache_addFrame (P : Pool δ) (x : Page) : SameCache P (P.addFrame x) :=
  ⟨rfl, rfl, by simp [addFrame], fun _ hf => congrArg Page.id (page_addFrame_of_lt hf x)⟩

/-- Nothing is at stake for the cache in its locks, its storage and its counters. -/
theorem sameCache_of_eq (hc : Q.capacity = P.capacity) (hr : Q.resident = P.resident)
    (hf : Q.frames = P.frames) : SameCache P Q :=
  ⟨hc, hr, Nat.le_of_eq (by rw [hf]), fun f _ => by rw [page_congr hf]⟩

theorem sameCache_restorePages (t : TxnId) (ps : List PageId) : ∀ P : Pool δ,
    SameCache P (ps.foldl (fun P p => P.restorePage t p) P) := by
  induction ps with
  | nil => exact .refl
  | cons p ps ih =>
    intro P
    have hone : SameCache P (P.restorePage t p) := by
      unfold restorePage
      split
      · split
        · exact sameCache_setPage rfl
        · exact .refl P
      · exact .refl P
    exact hone.trans (ih _)

theorem Effect.of_same (h : SameCache P Q)
    (hclean : ∀ f, (Q.page f).dirty = none → (P.page f).dirty = none) (h' : Effect o Q R) :
    Effect o P R where
  capacity := h'.capacity.trans h.capacity
  size := h.capacity ▸ h'.size
  frames := Nat.le_trans h.frames h'.frames
  ids f hf := (h'.ids f (Nat.lt_of_lt_of_le hf h.frames)).trans (h.ids f hf)
  fate p := by
    cases h'.fate p with
    | stays hp => exact .stays (by rw [hp, h.resident])
    | evicted f hf hcl hp => exact .evicted f (h.resident ▸ hf) (hclean f hcl) hp
    | enters f hp hlt hid hfrom => exact .enters f hp hlt hid (h.resident ▸ hfrom)
    | discarded ho hp => exact .discarded ho hp

theorem size_cache_of_lt {n : Nat} (h : R.resident.size < n) (p : PageId) (f : FrameId) :
    (R.cache p f).resident.size ≤ n := by
  show (R.resident.insert p f).size ≤ n
  rw [ExtTreeMap.size_insert]
  split <;> omega

theorem size_cache_of_some {p : PageId} {g : FrameId} (h : R.resident[p]? = some g) (f : FrameId) :
    (R.cache p f).resident.size = R.resident.size := by
  show (R.resident.insert p f).size = R.resident.size
  rw [ExtTreeMap.size_insert, if_pos (ExtTreeMap.contains_iff_mem.2 (mem_resident h))]

/-- A page comes in, in a place that it has or that was made for it. -/
theorem Effect.cache (h : Effect o P R) {p : PageId} {f : FrameId}
    (hsize : (R.cache p f).resident.size ≤ P.capacity)
    (hlt : f.index < R.frames.size) (hid : (R.page f).id = p)
    (hfrom : P.resident[p]? = none ∨ ∃ t, o = .install t f) : Effect o P (R.cache p f) where
  capacity := h.capacity
  size := hsize
  frames := h.frames
  ids := h.ids
  fate q := by
    have hq := resident_cache R p f q
    by_cases hqp : q = p
    · subst hqp
      exact .enters f (by rw [hq, if_pos rfl]) hlt hid hfrom
    · rw [if_neg hqp] at hq
      cases h.fate q with
      | stays hs => exact .stays (hq.trans hs)
      | evicted g hg hclean hs => exact .evicted g hg hclean (hq.trans hs)
      | enters g hs hg hgid hgfrom => exact .enters g (hq.trans hs) hg hgid hgfrom
      | discarded ho hs => exact .discarded ho (hq.trans hs)

/-- An image is made after room was. -/
theorem Effect.addFrame (h : Effect o P R) (x : Page) : Effect o P (R.addFrame x) where
  capacity := h.capacity
  size := h.size
  frames := Nat.le_trans h.frames (R.sameCache_addFrame x).frames
  ids f hf := ((R.sameCache_addFrame x).ids f (Nat.lt_of_lt_of_le hf h.frames)).trans (h.ids f hf)
  fate p := by
    cases h.fate p with
    | stays hp => exact .stays hp
    | evicted f hf hclean hp => exact .evicted f hf hclean hp
    | enters f hp hlt hid hfrom =>
      exact .enters f hp (Nat.lt_of_lt_of_le hlt (R.sameCache_addFrame x).frames)
        (((R.sameCache_addFrame x).ids f hlt).trans hid) hfrom
    | discarded ho hp => exact .discarded ho hp

theorem effect_discard (hsize : P.resident.size ≤ P.capacity) (p : PageId) :
    Effect (.discard p) P (P.discard p) where
  capacity := rfl
  size := Nat.le_trans ExtTreeMap.size_erase_le hsize
  frames := Nat.le_refl _
  ids _ _ := rfl
  fate q := by
    by_cases hq : q = p
    · subst hq
      exact .discarded rfl (by simp [Pool.discard])
    · exact .stays (by simp [Pool.discard, ExtTreeMap.getElem?_erase, Ne.symm hq])

/-- What a pool that may hold this many pages is always like. -/
structure Bounded (n : Nat) (P : Pool δ) : Prop where
  capacity : P.capacity = n
  size : P.resident.size ≤ n
  filed : P.Filed

theorem Effect.bounded {n : Nat} (h : Effect o P Q) (hP : Bounded n P) : Bounded n Q where
  capacity := h.capacity.trans hP.capacity
  size := hP.capacity ▸ h.size
  filed p f hf := by
    cases h.fate p with
    | stays hp =>
      obtain ⟨hlt, hid⟩ := hP.filed p f (hp ▸ hf)
      exact ⟨Nat.lt_of_lt_of_le hlt h.frames, (h.ids f hlt).trans hid⟩
    | evicted g hg hclean hp => cases hp.symm.trans hf
    | enters g hp hlt hid hfrom =>
      obtain rfl := Option.some.inj (hp.symm.trans hf)
      exact ⟨hlt, hid⟩
    | discarded ho hp => cases hp.symm.trans hf

theorem SameCache.bounded {n : Nat} (h : SameCache P Q) (hP : Bounded n P) : Bounded n Q :=
  (h.effect (o := .countEnd true) (hP.capacity ▸ hP.size)).bounded hP

theorem bounded_create {capacity : Nat} {draws : Draws} {s : δ} (h : create capacity draws s = .ok P) :
    0 < capacity ∧ Bounded capacity P := by
  obtain ⟨hpos, rfl⟩ := create_ok h
  exact ⟨hpos, rfl, Nat.zero_le _, fun p f hf => by simp at hf⟩

variable [Storage δ]

theorem sameCache_writeBack (P : Pool δ) (f : FrameId) : SameCache P (P.writeBack f).1 := by
  unfold writeBack
  dsimp only
  split
  · exact .refl P
  · split
    · exact sameCache_of_eq rfl rfl rfl
    · exact (sameCache_setPage (P := P) (f := f) (x := (P.page f).markClean) rfl).trans
        (sameCache_of_eq rfl rfl rfl)

theorem sameCache_flushIn (ps : List PageId) : ∀ P : Pool δ, SameCache P (P.flushIn ps).1 := by
  induction ps with
  | nil => exact .refl
  | cons p ps ih =>
    intro P
    unfold flushIn
    split
    · exact ih P
    · rename_i f _
      have hone := P.sameCache_writeBack f
      split
      · rename_i hW
        rwa [hW] at hone
      · rename_i hW
        rw [hW] at hone
        exact hone.trans (ih _)

theorem sameCache_flushHeldIn (ps : List PageId) : ∀ (P : Pool δ) (written : List TableId),
    SameCache P (P.flushHeldIn written ps).1 := by
  induction ps with
  | nil => exact fun P _ => .refl P
  | cons p ps ih =>
    intro P written
    unfold flushHeldIn
    split
    · exact ih P written
    · rename_i f _
      have hone := P.sameCache_writeBack f
      split
      · rename_i hW
        rwa [hW] at hone
      · rename_i W wrote hW
        rw [hW] at hone
        have hcap : SameCache W (W.setPage f (W.page f).capture) := sameCache_setPage rfl
        exact hone.trans (hcap.trans (ih _ _))

theorem sameCache_settlePages (P : Pool δ) (t : TxnId) (commit : Bool) :
    SameCache P (P.settlePages t commit).1 := by
  cases commit with
  | true =>
    have hin := sameCache_flushHeldIn (P.locks.heldPages t) P []
    show SameCache P (P.flushHeld t).1
    unfold flushHeld
    split
    · rename_i hR
      rwa [hR] at hin
    · rename_i R tables hR
      rw [hR] at hin
      rw [syncTables_calls]
      exact hin.trans (sameCache_of_eq rfl rfl rfl)
  | false => exact sameCache_restorePages t (P.locks.heldPages t) P

/-! ## Pages that come in -/

theorem effect_makeRoom (o : CacheOp δ) (hcap : 0 < P.capacity) (hsize : P.resident.size ≤ P.capacity) :
    Effect o P P.makeRoom.1 ∧
      (P.makeRoom.2 = .ok () → P.makeRoom.1.resident.size < P.capacity) := by
  have hshrunk := P.shrunk_makeRoom
  have hfate : ∀ p, Fate o P P.makeRoom.1 p := fun p => by
    rcases hshrunk.resident p with hp | ⟨hp, f, hf, hclean⟩
    · exact .stays hp
    · exact .evicted f hf hclean hp
  have hcase : P.makeRoom.1.capacity = P.capacity ∧ P.makeRoom.1.resident.size ≤ P.capacity ∧
      (P.makeRoom.2 = .ok () → P.makeRoom.1.resident.size < P.capacity) := by
    rcases makeRoom_cases hcap hsize with ⟨hroom, hmake⟩ | ⟨p, hp, hmake⟩ | ⟨-, hmake⟩
    · rw [hmake]
      exact ⟨rfl, hsize, fun _ => hroom⟩
    · have hone := size_evicted hp
      rw [hmake]
      have hless : (P.evicted p).resident.size < P.capacity := by omega
      exact ⟨rfl, Nat.le_of_lt hless, fun _ => hless⟩
    · rw [hmake]
      exact ⟨rfl, hsize, fun hok => by cases hok⟩
  exact ⟨⟨hcase.1, hcase.2.1, Nat.le_of_eq (by rw [hshrunk.frames]),
    fun f _ => by rw [page_congr hshrunk.frames], hfate⟩, hcase.2.2⟩

theorem effect_fetch (hread : ReadsOwn δ) (hcap : 0 < P.capacity) (hsize : P.resident.size ≤ P.capacity)
    (p : PageId) : Effect (.fetch p) P (P.fetch p).1 := by
  cases hp : P.resident[p]? with
  | some f =>
    have hhit : SameCache P (P.tally fun c => { c with hits := c.hits + 1 }) := sameCache_of_eq rfl rfl rfl
    rw [fetch_of_resident hp]
    exact hhit.effect hsize
  | none =>
    have hmissed : ∀ s, SameCache P (P.missed s) := fun s => sameCache_of_eq rfl rfl rfl
    rcases hr : Storage.readPage P.storage p with ⟨s, e | x⟩
    · rw [fetch_of_unread hp hr]
      exact (hmissed s).effect hsize
    · obtain ⟨hroom, hless⟩ := effect_makeRoom (o := .fetch p) (P := P.missed s) hcap hsize
      rw [fetch_of_read hp hr]
      rcases hR : (P.missed s).makeRoom with ⟨R, e | ⟨⟩⟩
      · rw [hR] at hroom
        exact hroom.of_same (hmissed s) fun _ hf => hf
      · rw [hR] at hroom hless
        have hid : ((R.addFrame x).page R.nextFrame).id = p := by
          rw [page_nextFrame]
          exact hread _ _ p x hr
        have hcached := (hroom.addFrame x).cache (size_cache_of_lt (hless rfl) p R.nextFrame)
          (by simp [Pool.addFrame, nextFrame]) hid (.inl hp)
        exact hcached.of_same (hmissed s) fun _ hf => hf

theorem effect_install (hcap : 0 < P.capacity) (hsize : P.resident.size ≤ P.capacity)
    (t : TxnId) {f : FrameId} (hlt : f.index < P.frames.size) :
    Effect (.install t f) P (P.install t f).1 := by
  generalize hQ : P.setPage f ((P.page f).markDirty t) = Q
  have hsame : SameCache P Q := hQ ▸ sameCache_setPage rfl
  have hclean : ∀ g, (Q.page g).dirty = none → (P.page g).dirty = none := by
    intro g hg
    rw [← hQ, page_setPage] at hg
    split at hg
    · cases hg
    · exact hg
  have hltQ : f.index < Q.frames.size := Nat.lt_of_lt_of_le hlt hsame.frames
  have hid : (Q.page f).id = (P.page f).id := hsame.ids f hlt
  have hsizeQ : Q.resident.size ≤ Q.capacity := by rwa [hsame.resident, hsame.capacity]
  have hmarked : Effect (.install t f) Q Q := (SameCache.refl Q).effect hsizeQ
  cases hr : P.resident[(P.page f).id]? with
  | none =>
    obtain ⟨hroom, hless⟩ := effect_makeRoom (o := .install t f) (P := Q)
      (by rwa [hsame.capacity]) hsizeQ
    rw [install_of_none hr, hQ, takeIn]
    rcases hR : Q.makeRoom with ⟨R, e | ⟨⟩⟩
    · rw [hR] at hroom
      exact hroom.of_same hsame hclean
    · rw [hR] at hroom hless
      have hcached := hroom.cache (size_cache_of_lt (hless rfl) _ f) (Nat.lt_of_lt_of_le hltQ hroom.frames)
        ((hroom.ids f hltQ).trans hid) (.inr ⟨t, rfl⟩)
      exact hcached.of_same hsame hclean
  | some g =>
    by_cases hg : g = f
    · subst hg
      rw [install_of_resident hr, hQ]
      exact hsame.effect hsize
    · rw [install_of_other hr hg, hQ]
      have hgQ : Q.resident[(P.page f).id]? = some g := by rw [hsame.resident, hr]
      have hfits : (Q.cache (P.page f).id f).resident.size ≤ Q.capacity := by
        rwa [size_cache_of_some hgQ]
      exact (hmarked.cache hfits hltQ hid (.inr ⟨t, rfl⟩)).of_same hsame hclean

/-! ## Runs -/

/-- What an operation that reads no page does to the cache. -/
theorem effect_of_unread (hcap : 0 < P.capacity) (hsize : P.resident.size ≤ P.capacity) (ho : o.Allowed P)
    (hunread : ∀ p, o ≠ .fetch p) : Effect o P (o.run P) := by
  cases o with
  | fetch p => exact absurd rfl (hunread p)
  | install t f => exact effect_install hcap hsize t ho
  | flush ps => exact (sameCache_flushIn ps P).effect hsize
  | settle t commit => exact (P.sameCache_settlePages t commit).effect hsize
  | discard p => exact effect_discard hsize p
  | countEnd commit =>
    have hsame : SameCache P (P.countEnd commit) := sameCache_of_eq rfl rfl rfl
    exact hsame.effect hsize
  | relock L =>
    have hsame : SameCache P (P.withLocks L) := sameCache_of_eq rfl rfl rfl
    exact hsame.effect hsize
  | touch f x =>
    have hsame : SameCache P (P.setPage f x) := sameCache_setPage ho
    exact hsame.effect hsize
  | make x => exact (P.sameCache_addFrame x).effect hsize
  | restock s =>
    have hsame : SameCache P { P with storage := s } := sameCache_of_eq rfl rfl rfl
    exact hsame.effect hsize

/-- **What an operation does to the cache**, also one that fails. -/
theorem effect_run (hread : ReadsOwn δ) {n : Nat} (hn : 0 < n) (hP : Bounded n P) (ho : o.Allowed P) :
    Effect o P (o.run P) := by
  have hcap : 0 < P.capacity := hP.capacity ▸ hn
  have hsize : P.resident.size ≤ P.capacity := hP.capacity ▸ hP.size
  by_cases hfetch : ∃ p, o = .fetch p
  · obtain ⟨p, rfl⟩ := hfetch
    exact effect_fetch hread hcap hsize p
  · exact effect_of_unread hcap hsize ho fun p hp => hfetch ⟨p, hp⟩

theorem Reaches.bounded (hread : ReadsOwn δ) {n : Nat} (hn : 0 < n) (hP : Bounded n P)
    (h : P.Reaches Q) : Bounded n Q := by
  induction h with
  | refl => exact hP
  | step _ ho ih => exact (effect_run hread hn ih ho).bounded ih

theorem Reaches.trans (h : P.Reaches Q) (h' : Q.Reaches R) : P.Reaches R := by
  induction h' with
  | refl => exact h
  | step _ ho ih => exact ih.step ho

theorem Reaches.of_fetch {p : PageId} {r : Except Error FrameId} (h : P.fetch p = (Q, r)) : P.Reaches Q := by
  have hop : P.Reaches (P.fetch p).1 := Reaches.refl.step (o := .fetch p) trivial
  rwa [h] at hop

theorem Reaches.of_restock (P : Pool δ) (s : δ) : P.Reaches { P with storage := s } :=
  Reaches.refl.step (o := .restock s) trivial

theorem Reaches.frames_le (hread : ReadsOwn δ) {n : Nat} (hn : 0 < n) (hP : Bounded n P)
    (h : P.Reaches Q) : P.frames.size ≤ Q.frames.size := by
  induction h with
  | refl => exact Nat.le_refl _
  | step hQ ho ih => exact Nat.le_trans ih (effect_run hread hn (hQ.bounded hread hn hP) ho).frames

/-- An image is of the page that it was made for. -/
theorem Reaches.ids (hread : ReadsOwn δ) {n : Nat} (hn : 0 < n) (hP : Bounded n P) (h : P.Reaches Q)
    {f : FrameId} (hf : f.index < P.frames.size) : (Q.page f).id = (P.page f).id := by
  induction h with
  | refl => rfl
  | step hQ ho ih =>
    have hlt := Nat.lt_of_lt_of_le hf (hQ.frames_le hread hn hP)
    exact ((effect_run hread hn (hQ.bounded hread hn hP) ho).ids f hlt).trans ih

/-- The cache of a pool that may hold this many pages. -/
structure KeepsWithin (n : Nat) (P : Pool δ) : Prop where
  size : P.resident.size ≤ n
  named : ∀ (p : PageId) (f : FrameId), P.resident[p]? = some f → (P.page f).id = p
  /-- Whatever is done next, a dirty page stays, or it is discarded, or another image of it that a store has
  changed takes its place. -/
  dirty : ∀ o : CacheOp δ, o.Allowed P → ∀ (p : PageId) (f : FrameId), P.resident[p]? = some f →
    (P.page f).dirty ≠ none → (o.run P).resident[p]? = some f ∨ o = .discard p ∨
      ∃ t g, o = .install t g ∧ (P.page g).id = p ∧ (o.run P).resident[p]? = some g
  /-- Making room leaves the storage alone, and is the same over any other one. -/
  room : P.makeRoom.1.storage = P.storage ∧ ∀ (ε : Type) [Storage ε] (s : ε),
    (P.withStorage s).makeRoom = (P.makeRoom.1.withStorage s, P.makeRoom.2)
  /-- So does a single eviction. -/
  eviction : P.evict.1.storage = P.storage ∧ ∀ (ε : Type) [Storage ε] (s : ε),
    (P.withStorage s).evict = (P.evict.1.withStorage s, P.evict.2)

/-- **A bounded cache that keeps its dirty pages.** In every state to which any operations lead, over any
storage that reads the pages it is asked for, whatever calls on it fail. -/
theorem keeps_within (hread : ReadsOwn δ) {o : Options} {draws : Draws} {s : δ} {P₀ : Pool δ}
    (hP₀ : create o.capacity draws s = .ok P₀) (hP : P₀.Reaches P) : KeepsWithin o.capacity P := by
  obtain ⟨hpos, hbounded₀⟩ := bounded_create hP₀
  have hbounded := hP.bounded hread hpos hbounded₀
  refine ⟨hbounded.size, fun p f hf => (hbounded.filed p f hf).2, fun o ho p f hf hdirty => ?_,
    ⟨P.shrunk_makeRoom.storage, fun ε _ s => P.makeRoom_withStorage s⟩,
    ⟨P.shrunk_evict.storage, fun ε _ s => P.evict_withStorage s⟩⟩
  have heffect := effect_run hread hpos hbounded ho
  cases heffect.fate p with
  | stays hp => exact .inl (hp.trans hf)
  | evicted g hg hclean hp =>
    obtain rfl := Option.some.inj (hf.symm.trans hg)
    exact absurd hclean hdirty
  | enters g hp hlt hid hfrom =>
    rcases hfrom with hnone | ⟨t, rfl⟩
    · cases hnone.symm.trans hf
    · exact .inr (.inr ⟨t, g, rfl, (heffect.ids g ho).symm.trans hid, hp⟩)
  | discarded ho _ => exact .inr (.inl ho)

end Fates

/-! ### A run of one place -/

theorem readsOwn_tables : ReadsOwn Tables := by
  intro d d' p x h
  obtain ⟨data, rfl⟩ := Tables.readPage_ofData (congrArg Prod.snd h)
  rfl

/-- A cache of one place over the table of two pages. -/
def freshPair : Pool Tables := { capacity := 1, storage := pairPool.storage, draws := Draws.ofSeed 7 }

/-- The first page is fetched and dirtied, and then the second one is asked for. -/
def crowd (P : Pool Tables) : Pool Tables :=
  let P := CacheOp.run P (.fetch ⟨⟨1⟩, 0⟩)
  CacheOp.run (CacheOp.run P (.touch ⟨0⟩ ((P.page ⟨0⟩).markDirty ⟨1⟩))) (.fetch ⟨⟨1⟩, 1⟩)

theorem reaches_crowd (P : Pool Tables) : P.Reaches P.crowd := by
  have hfetch : P.Reaches (CacheOp.run P (.fetch ⟨⟨1⟩, 0⟩)) := Reaches.refl.step trivial
  have htouch := hfetch.step
    (o := .touch ⟨0⟩ (((CacheOp.run P (.fetch ⟨⟨1⟩, 0⟩)).page ⟨0⟩).markDirty ⟨1⟩)) rfl
  exact htouch.step (o := .fetch ⟨⟨1⟩, 1⟩) trivial

theorem keeps_within_pair :
    create 1 (Draws.ofSeed 7) pairPool.storage = .ok freshPair ∧ freshPair.Reaches freshPair.crowd ∧
      KeepsWithin 1 freshPair.crowd :=
  have hreaches := freshPair.reaches_crowd
  ⟨rfl, hreaches, keeps_within (o := { capacity := 1 }) readsOwn_tables rfl hreaches⟩

end Pool

end PageEngine
