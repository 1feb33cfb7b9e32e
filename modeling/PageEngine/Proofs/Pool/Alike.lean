import Mathlib.Data.List.Perm.Subperm
import PageEngine.Proofs.Pool.Bounds

/-!
# `Proofs/Pool/Alike.lean` — pools that differ in the clean pages of their caches

Two pools are alike if they have the same capacity, storage and locks and the same dirty pages with the same
images. Which clean pages they cache besides is left open; it is what the choices of eviction decide. Every
operation keeps pools alike and comes out alike:

> **whether there is room is a matter of the dirty pages alone**, and so is what the storage is asked for.

If a cache is clogged in one of them, its pages are exactly the dirty ones, and so they are in the other.
-/

set_option autoImplicit false

namespace PageEngine

open Std

/-- No table has more pages than page numbers can count, so no call on a store fails for its size. -/
def Tables.Counted (d : Tables) : Prop := ∀ t, d.pages t ≤ maxPageNo

namespace Pool

section Images

variable {δ : Type} {P Q R S : Pool δ} {p : PageId} {f : FrameId}

/-! ## Dirty images -/

theorem dirtyImage_congr (hr : Q.resident[p]? = P.resident[p]?)
    (hf : ∀ f, P.resident[p]? = some f → Q.page f = P.page f) : Q.dirtyImage p = P.dirtyImage p := by
  rw [dirtyImage, dirtyImage, hr]
  cases hp : P.resident[p]? with
  | none => rfl
  | some f => rw [Option.map_some, Option.map_some, hf f hp]

theorem dirtyImage_of_resident (hf : P.resident[p]? = some f) :
    P.dirtyImage p = if (P.page f).dirty = none then none else some (P.page f) := by
  split
  · rename_i hclean
    exact dirtyImage_of_clean hf hclean
  · rename_i hdirty
    exact dirtyImage_of_dirty hf hdirty

theorem Shrunk.dirtyImage (h : Shrunk P Q) (p : PageId) : Q.dirtyImage p = P.dirtyImage p := by
  rcases h.resident p with hp | ⟨hp, f, hf, hclean⟩
  · exact dirtyImage_congr hp fun f _ => page_congr h.frames f
  · rw [dirtyImage_of_none hp, dirtyImage_of_clean hf hclean]

theorem Shrunk.filed (h : Shrunk P Q) (hP : P.Filed) : Q.Filed := by
  intro p f hf
  rw [page_congr h.frames, h.frames]
  exact hP p f (h.resident_of_some hf)

theorem dirtyImage_addFrame (hP : P.Filed) (x : Page) (q : PageId) :
    (P.addFrame x).dirtyImage q = P.dirtyImage q :=
  dirtyImage_congr rfl fun f hf => page_addFrame_of_lt (hP q f hf).1 x

/-- The image of a page that is cached anew is dirty if the page is. -/
theorem dirtyImage_cache (P : Pool δ) (p : PageId) (f : FrameId) (q : PageId) :
    (P.cache p f).dirtyImage q =
      if q = p then (if (P.page f).dirty = none then none else some (P.page f)) else P.dirtyImage q := by
  have hq := resident_cache P p f q
  split
  · rename_i hqp
    rw [if_pos hqp] at hq
    exact dirtyImage_of_resident hq
  · rename_i hqp
    rw [if_neg hqp] at hq
    exact dirtyImage_congr hq fun _ _ => rfl

theorem dirtyImage_setPage (hlt : f.index < P.frames.size) (x : Page) (q : PageId) :
    (P.setPage f x).dirtyImage q =
      if P.resident[q]? = some f then (if x.dirty = none then none else some x) else P.dirtyImage q := by
  have hself : (P.setPage f x).page f = x := by rw [page_setPage, if_pos ⟨rfl, hlt⟩]
  split
  · rename_i hf
    rw [dirtyImage_of_resident (P := P.setPage f x) hf, hself]
  · rename_i hf
    refine dirtyImage_congr rfl fun g hg => ?_
    rw [page_setPage, if_neg]
    rintro ⟨rfl, -⟩
    exact hf hg

/-! ## Alike pools -/

/-- The pools differ at most in the clean pages that they cache, in their choices and in their counters. -/
structure Alike (P Q : Pool δ) : Prop where
  capacity : Q.capacity = P.capacity
  storage : Q.storage = P.storage
  locks : Q.locks = P.locks
  dirty : ∀ p, Q.dirtyImage p = P.dirtyImage p

theorem Alike.refl (P : Pool δ) : Alike P P := ⟨rfl, rfl, rfl, fun _ => rfl⟩

theorem Alike.symm (h : Alike P Q) : Alike Q P :=
  ⟨h.capacity.symm, h.storage.symm, h.locks.symm, fun p => (h.dirty p).symm⟩

theorem Alike.trans (h : Alike P Q) (h' : Alike Q R) : Alike P R :=
  ⟨h'.capacity.trans h.capacity, h'.storage.trans h.storage, h'.locks.trans h.locks,
    fun p => (h'.dirty p).trans (h.dirty p)⟩

theorem Alike.withLocks (h : Alike P Q) (L : LockTable) : Alike (P.withLocks L) (Q.withLocks L) :=
  ⟨h.capacity, h.storage, rfl, h.dirty⟩

theorem Alike.restock (h : Alike P Q) (s : δ) : Alike { P with storage := s } { Q with storage := s } :=
  ⟨h.capacity, rfl, h.locks, h.dirty⟩

theorem Alike.tally (h : Alike P Q) (count count' : Counters → Counters) :
    Alike (P.tally count) (Q.tally count') :=
  ⟨h.capacity, h.storage, h.locks, h.dirty⟩

theorem Alike.of_shrunk (h : Shrunk P Q) (hc : Q.capacity = P.capacity) : Alike P Q :=
  ⟨hc, h.storage, h.locks, h.dirtyImage⟩

/-! ## Room -/

theorem nodup_residentPages (P : Pool δ) : P.residentPages.Nodup := by
  refine List.Pairwise.imp ?_ (ExtTreeMap.distinct_keys (t := P.resident))
  intro a b hab heq
  exact hab (Std.compare_eq_iff_eq.2 heq)

/-- **Whether a cache is clogged is seen from its dirty pages**: it is full of them, and another cache that has
the same ones has no place for any other page either. -/
theorem clogged_of_dirtyImage {n : Nat} (h : ∀ p, Q.dirtyImage p = P.dirtyImage p) (hP : Bounded n P)
    (hQ : Bounded n Q) (hclog : P.Clogged) : Q.Clogged := by
  -- The cached pages of `P` are dirty, so they are cached by `Q`.
  have hsub : P.residentPages ⊆ Q.residentPages := by
    intro p hp
    obtain ⟨f, hf⟩ := Option.isSome_iff_exists.1 (mem_residentPages.1 hp)
    have hdirty := dirtyImage_of_dirty hf (hclog.dirty p f hf)
    rw [← h] at hdirty
    obtain ⟨g, hg, -⟩ := dirtyImage_eq_some.1 hdirty
    exact mem_residentPages.2 (by rw [hg]; rfl)
  have hfull : n ≤ P.resident.size := hP.capacity ▸ hclog.full
  have hlen : Q.residentPages.length ≤ P.residentPages.length := by
    rw [length_residentPages, length_residentPages]
    exact Nat.le_trans hQ.size hfull
  -- There are as many of them as `Q` may cache, so `Q` caches no other page.
  have hperm := (List.subperm_of_subset P.nodup_residentPages hsub).perm_of_length_le hlen
  refine ⟨?_, fun q g hg => ?_⟩
  · rw [hQ.capacity, ← length_residentPages, ← hperm.length_eq, length_residentPages]
    exact hfull
  · have hq : q ∈ P.residentPages := hperm.mem_iff.2 (mem_residentPages.2 (by rw [hg]; rfl))
    obtain ⟨f, hf⟩ := Option.isSome_iff_exists.1 (mem_residentPages.1 hq)
    have hdirty := dirtyImage_of_dirty hf (hclog.dirty q f hf)
    rw [← h, dirtyImage_of_resident hg] at hdirty
    intro hclean
    rw [if_pos hclean] at hdirty
    cases hdirty

theorem Alike.clogged {n : Nat} (h : Alike P Q) (hP : Bounded n P) (hQ : Bounded n Q) (hclog : P.Clogged) :
    Q.Clogged :=
  clogged_of_dirtyImage h.dirty hP hQ hclog

/-- **There is room unless the cache is clogged.** -/
theorem makeRoom_verdict {n : Nat} [Storage δ] (hn : 0 < n) (hP : Bounded n P) :
    (∃ R, P.makeRoom = (R, .ok ()) ∧ Shrunk P R ∧ R.capacity = P.capacity ∧ ¬P.Clogged) ∨
    (∃ R, P.makeRoom = (R, .error .everyPageDirty) ∧ Alike P R ∧ P.Clogged) := by
  have hshrunk := P.shrunk_makeRoom
  rcases makeRoom_cases (hP.capacity ▸ hn) (hP.capacity ▸ hP.size) with
    ⟨hroom, hmake⟩ | ⟨q, hq, hmake⟩ | ⟨hclog, hmake⟩
  · exact .inl ⟨P, hmake, .refl P, rfl, fun hclog => Nat.not_lt.2 hclog.full hroom⟩
  · rw [hmake] at hshrunk
    refine .inl ⟨_, hmake, hshrunk, rfl, fun hclog => ?_⟩
    obtain ⟨f, hf, hclean⟩ := victim_clean hq
    exact hclog.dirty q f hf hclean
  · rw [hmake] at hshrunk
    exact .inr ⟨_, hmake, .of_shrunk hshrunk rfl, hclog⟩

end Images

/-! ## Fetching -/

section Operations

variable {P Q R S : Pool Tables} {p : PageId} {f g : FrameId} {n : Nat} {t : TxnId}

/-- Why a fetch fails: the page cannot be read, or there is no room for it. -/
def FetchFails (P : Pool Tables) (p : PageId) (e : Error) : Prop :=
  P.storage.readPage p = .error e ∨
    (∃ x, P.storage.readPage p = .ok x) ∧ P.dirtyImage p = none ∧ P.Clogged ∧ e = .everyPageDirty

theorem FetchFails.unique {e e' : Error} (h : FetchFails P p e) (h' : FetchFails P p e') : e = e' := by
  rcases h with h | ⟨⟨x, hx⟩, -, -, rfl⟩ <;> rcases h' with h' | ⟨⟨y, hy⟩, -, -, rfl⟩
  · exact Except.error.inj (h.symm.trans h')
  · cases h.symm.trans hy
  · cases hx.symm.trans h'
  · rfl

theorem FetchFails.alike {e : Error} (hf : FetchFails P p e) (h : Alike P Q) (hP : Bounded n P)
    (hQ : Bounded n Q) : FetchFails Q p e := by
  rcases hf with hr | ⟨hr, hnone, hclog, rfl⟩
  · exact .inl (h.storage ▸ hr)
  · exact .inr ⟨h.storage ▸ hr, (h.dirty p).trans hnone, h.clogged hP hQ hclog, rfl⟩

/-- A pool that keeps within its bound and caches pages of its stores, where no call on a file fails. -/
structure Ready (n : Nat) (P : Pool Tables) : Prop where
  bounded : Bounded n P
  sound : P.storage.Sound
  pages : ∀ (p : PageId) (f : FrameId), P.resident[p]? = some f → P.storage.HasPage p
  counted : P.storage.Counted

/-- Every page that is cached can be read. -/
theorem Ready.readable (h : Ready n P) (hf : P.resident[p]? = some f) : ∃ x, P.storage.readPage p = .ok x :=
  ⟨_, Tables.readPage_eq h.sound (h.pages p f hf).1 (h.counted p.table)⟩

/-- **A fetch fails for a reason that clean pages have no part in**, and whatever it comes to it leaves the pool
alike. -/
theorem fetch_verdict (hn : 0 < n) (h : Ready n P) (p : PageId) :
    (∃ R f, P.fetch p = (R, .ok f) ∧ R.resident[p]? = some f ∧ Alike P R ∧ ∀ e, ¬FetchFails P p e) ∨
    (∃ R e, P.fetch p = (R, .error e) ∧ Alike P R ∧ FetchFails P p e) := by
  have hP := h.bounded
  cases hp : P.resident[p]? with
  | some f =>
    obtain ⟨x, hx⟩ := h.readable hp
    refine .inl ⟨_, f, fetch_of_resident hp, hp, (Alike.refl P).tally id _, ?_⟩
    rintro e (hr | ⟨-, hnone, hclog, -⟩)
    · cases hx.symm.trans hr
    · rw [dirtyImage_of_dirty hp (hclog.dirty p f hp)] at hnone
      cases hnone
  | none =>
    have hmissed : Alike P (P.missed P.storage) := ⟨rfl, rfl, rfl, fun _ => rfl⟩
    have hnone := dirtyImage_of_none hp
    cases hr : P.storage.readPage p with
    | error e =>
      have hs : Storage.readPage P.storage p = (P.storage, .error e) := by rw [← hr]; rfl
      exact .inr ⟨_, e, fetch_of_unread hp hs, hmissed, .inl hr⟩
    | ok x =>
      have hs : Storage.readPage P.storage p = (P.storage, .ok x) := by rw [← hr]; rfl
      have hfetch := fetch_of_read hp hs
      have hbounded : Bounded n (P.missed P.storage) := ⟨hP.capacity, hP.size, hP.filed⟩
      rcases makeRoom_verdict hn hbounded with ⟨R, hmake, hR, hc, hroom⟩ | ⟨R, hmake, hR, hclog⟩
      · rw [hmake] at hfetch
        refine .inl ⟨_, R.nextFrame, hfetch, by rw [resident_cache, if_pos rfl], ?_, ?_⟩
        · refine ⟨hc, hR.storage, hR.locks, fun q => ?_⟩
          obtain ⟨data, rfl⟩ := Tables.readPage_ofData hr
          rw [dirtyImage_cache, page_nextFrame, dirtyImage_addFrame (hR.filed hbounded.filed)]
          split
          · rename_i hq
            rw [hq, hnone]
            rfl
          · exact hR.dirtyImage q
        · rintro e (hfail | ⟨-, -, hclog, -⟩)
          · cases hr.symm.trans hfail
          · exact hroom ⟨hclog.full, hclog.dirty⟩
      · rw [hmake] at hfetch
        exact .inr ⟨R, _, hfetch, hmissed.trans hR,
          .inr ⟨⟨x, hr⟩, hnone, ⟨hclog.full, hclog.dirty⟩, rfl⟩⟩

/-- **Alike pools fetch alike.** -/
theorem Alike.fetch (h : Alike P Q) (hn : 0 < n) (hP : Ready n P) (hQ : Ready n Q) (p : PageId) :
    (∃ R S f g, P.fetch p = (R, .ok f) ∧ Q.fetch p = (S, .ok g) ∧ Alike R S ∧
      R.resident[p]? = some f ∧ S.resident[p]? = some g) ∨
    (∃ R S e, P.fetch p = (R, .error e) ∧ Q.fetch p = (S, .error e) ∧ Alike R S) := by
  rcases fetch_verdict hn hP p with ⟨R, f, hfetch, hf, hR, hno⟩ | ⟨R, e, hfetch, hR, he⟩ <;>
    rcases fetch_verdict hn hQ p with ⟨S, g, hfetch', hg, hS, hno'⟩ | ⟨S, e', hfetch', hS, he'⟩
  · exact .inl ⟨R, S, f, g, hfetch, hfetch', (hR.symm.trans h).trans hS, hf, hg⟩
  · exact absurd (he'.alike h.symm hQ.bounded hP.bounded) (hno e')
  · exact absurd (he.alike h hP.bounded hQ.bounded) (hno' e)
  · obtain rfl := (he.alike h hP.bounded hQ.bounded).unique he'
    exact .inr ⟨R, S, e, hfetch, hfetch', (hR.symm.trans h).trans hS⟩

/-! ## Marking -/

/-- `R` is `P` with another dirty image of one page. -/
structure Redirtied (P R : Pool Tables) (x : Page) : Prop where
  capacity : R.capacity = P.capacity
  storage : R.storage = P.storage
  locks : R.locks = P.locks
  dirty : ∀ q, R.dirtyImage q = if q = x.id then some x else P.dirtyImage q

theorem Redirtied.alike {x : Page} (hR : Redirtied P R x) (h : Alike P Q) (hS : Redirtied Q S x) :
    Alike R S where
  capacity := by rw [hS.capacity, h.capacity, hR.capacity]
  storage := by rw [hS.storage, h.storage, hR.storage]
  locks := by rw [hS.locks, h.locks, hR.locks]
  dirty q := by rw [hS.dirty, hR.dirty, h.dirty]

theorem resident_iff_of_filed (hP : P.Filed) (hf : P.resident[(P.page f).id]? = some f) (q : PageId) :
    P.resident[q]? = some f ↔ q = (P.page f).id :=
  ⟨fun hq => (hP q f hq).2.symm, fun hq => hq ▸ hf⟩

/-- A cached frame is given a dirty image. -/
theorem redirtied_setPage (hP : P.Filed) {x : Page} (hid : x.id = (P.page f).id) (hx : x.dirty ≠ none)
    (hf : P.resident[(P.page f).id]? = some f) : Redirtied P (P.setPage f x) x where
  capacity := rfl
  storage := rfl
  locks := rfl
  dirty q := by
    rw [dirtyImage_setPage (hP _ f hf).1, if_neg hx, hid]
    simp only [resident_iff_of_filed hP hf]

/-- An image that is not cached can be given other contents without anything to be seen. -/
theorem alike_setPage (hf : ∀ q : PageId, P.resident[q]? ≠ some f) (x : Page) : Alike P (P.setPage f x) :=
  ⟨rfl, rfl, rfl, fun q => dirtyImage_congr rfl fun g hg => by
    rw [page_setPage, if_neg]
    rintro ⟨rfl, -⟩
    exact hf q hg⟩

/-- **An install fails if the page is not dirty and the cache is clogged**, and else the frame is the dirty image
of its page. -/
theorem install_verdict (hn : 0 < n) (hP : Bounded n P) (hlt : f.index < P.frames.size) (t : TxnId) :
    (∃ R, P.install t f = (R, .ok ()) ∧ Redirtied P R ((P.page f).markDirty t) ∧
      ¬(P.dirtyImage (P.page f).id = none ∧ P.Clogged)) ∨
    (∃ R, P.install t f = (R, .error .everyPageDirty) ∧ Alike P R ∧
      P.dirtyImage (P.page f).id = none ∧ P.Clogged) := by
  have hself : (P.setPage f ((P.page f).markDirty t)).page f = (P.page f).markDirty t := by
    rw [page_setPage, if_pos ⟨rfl, hlt⟩]
  -- Under another name than its own the frame is not cached.
  have hother : ∀ q, q ≠ (P.page f).id → P.resident[q]? ≠ some f := fun q hq hqf =>
    hq (hP.filed q f hqf).2.symm
  cases hr : P.resident[(P.page f).id]? with
  | some g =>
    have hnotclog : ¬(P.dirtyImage (P.page f).id = none ∧ P.Clogged) := by
      rintro ⟨hnone, hclog⟩
      rw [dirtyImage_of_dirty hr (hclog.dirty _ g hr)] at hnone
      cases hnone
    by_cases hg : g = f
    · subst hg
      exact .inl ⟨_, install_of_resident hr t, redirtied_setPage hP.filed rfl (by simp) hr, hnotclog⟩
    · refine .inl ⟨_, install_of_other hr hg t, ⟨rfl, rfl, rfl, fun q => ?_⟩, hnotclog⟩
      rw [dirtyImage_cache, hself, dirtyImage_setPage hlt]
      by_cases hq : q = (P.page f).id
      · simp [hq]
      · simp [hq, hother q hq]
  | none =>
    have hnowhere : ∀ q : PageId, P.resident[q]? ≠ some f := by
      intro q hqf
      rw [← (hP.filed q f hqf).2] at hqf
      cases hr.symm.trans hqf
    have hmarked := alike_setPage hnowhere ((P.page f).markDirty t)
    have hbounded := (sameCache_setPage (P := P) (f := f) (x := (P.page f).markDirty t) rfl).bounded hP
    have hnone := dirtyImage_of_none hr
    rw [install_of_none hr, takeIn]
    rcases makeRoom_verdict hn hbounded with ⟨R, hmake, hR, hc, hroom⟩ | ⟨R, hmake, hR, hclog⟩
    · rw [hmake]
      refine .inl ⟨_, rfl, ⟨hc, hR.storage, hR.locks, fun q => ?_⟩, fun h =>
        hroom (hmarked.clogged hP hbounded h.2)⟩
      rw [dirtyImage_cache, page_congr hR.frames, hself, hR.dirtyImage, hmarked.dirty,
        if_neg (by simp : ¬((P.page f).markDirty t).dirty = none)]
      rfl
    · rw [hmake]
      exact .inr ⟨R, rfl, hmarked.trans hR, hnone, hmarked.symm.clogged hbounded hP hclog⟩

/-- **Alike pools install alike** frames that have the same image once they are marked. -/
theorem Alike.install (h : Alike P Q) (hn : 0 < n) (hP : Bounded n P) (hQ : Bounded n Q)
    (hf : f.index < P.frames.size) (hg : g.index < Q.frames.size)
    (hmark : (Q.page g).markDirty t = (P.page f).markDirty t) :
    ∃ R S r, P.install t f = (R, r) ∧ Q.install t g = (S, r) ∧ Alike R S := by
  have hid := congrArg Page.id hmark
  rw [Page.markDirty_id, Page.markDirty_id] at hid
  rcases install_verdict hn hP hf t with ⟨R, hR, hre, hno⟩ | ⟨R, hR, hre, hnone, hclog⟩ <;>
    rcases install_verdict hn hQ hg t with ⟨S, hS, hse, hno'⟩ | ⟨S, hS, hse, hnone', hclog'⟩
  · exact ⟨R, S, _, hR, hS, hre.alike h (hmark ▸ hse)⟩
  · refine absurd ⟨?_, h.symm.clogged hQ hP hclog'⟩ hno
    rw [← h.dirty, ← hid, hnone']
  · refine absurd ⟨?_, h.clogged hP hQ hclog⟩ hno'
    rw [h.dirty, hid, hnone]
  · exact ⟨R, S, _, hR, hS, (hre.symm.trans h).trans hse⟩

/-- What a frame of a page is overwritten with shows if the page is dirty. -/
theorem dirtyImage_overwrite (hP : P.Filed) (hlt : f.index < P.frames.size)
    (hres : P.resident[(P.page f).id]? = none ∨ P.resident[(P.page f).id]? = some f) (d : PageData) (q : PageId) :
    (P.setPage f ((P.page f).withData d)).dirtyImage q =
      if q = (P.page f).id then (P.dirtyImage q).map (·.withData d) else P.dirtyImage q := by
  rw [dirtyImage_setPage hlt]
  by_cases hq : q = (P.page f).id
  · subst hq
    rcases hres with hnone | hf
    · simp [hnone, dirtyImage_of_none hnone]
    · rw [if_pos hf, if_pos rfl, dirtyImage_of_resident hf]
      split <;> simp_all
  · rw [if_neg hq, if_neg fun hqf => hq (hP q f hqf).2.symm]

theorem Alike.overwrite (h : Alike P Q) (hP : P.Filed) (hQ : Q.Filed) (hf : f.index < P.frames.size)
    (hg : g.index < Q.frames.size) (hid : (Q.page g).id = (P.page f).id)
    (hresf : P.resident[(P.page f).id]? = none ∨ P.resident[(P.page f).id]? = some f)
    (hresg : Q.resident[(Q.page g).id]? = none ∨ Q.resident[(Q.page g).id]? = some g) (d : PageData) :
    Alike (P.setPage f ((P.page f).withData d)) (Q.setPage g ((Q.page g).withData d)) where
  capacity := h.capacity
  storage := h.storage
  locks := h.locks
  dirty q := by rw [dirtyImage_overwrite hP hf hresf, dirtyImage_overwrite hQ hg hresg, hid, h.dirty]

/-! ## The end of a transaction -/

/-- The dirty images after a rework that cleans some of the listed pages and leaves the others alone. -/
theorem Reworked.dirtyImage_cleaned {ps : List PageId} {φ : PageId → Page → Page} (h : Reworked P R ps φ)
    (hP : P.Filed) (cleans : PageId → Prop) [DecidablePred cleans]
    (hclean : ∀ p x, cleans p → (φ p x).dirty = none) (hsame : ∀ p x, ¬cleans p → φ p x = x) (q : PageId) :
    R.dirtyImage q = if q ∈ ps ∧ cleans q then none else P.dirtyImage q := by
  cases hq : P.resident[q]? with
  | none =>
    rw [dirtyImage_of_none hq, dirtyImage_of_none (h.resident ▸ hq), ite_self]
  | some f =>
    have hpage := h.page_eq hP hq
    rw [dirtyImage_of_resident (h.resident ▸ hq), dirtyImage_of_resident hq, hpage]
    by_cases hmem : q ∈ ps
    · by_cases hc : cleans q
      · simp [hmem, hc, hclean q _ hc]
      · simp [hmem, hc, hsame q _ hc]
    · simp [hmem]

theorem Alike.commitCalls (h : Alike P Q) (t : TxnId) : Q.commitCalls t = P.commitCalls t := by
  have hdirty : Q.dirtyImage = P.dirtyImage := funext h.dirty
  rw [Pool.commitCalls, Pool.commitCalls, dirtyTables, dirtyTables, dirtyHeld, dirtyHeld, dirtyAmong, dirtyAmong,
    hdirty, h.locks]

/-- **Alike pools end a transaction alike**, where no call on a file fails. -/
theorem Alike.settle (h : Alike P Q) (hP : Ready n P) (hQ : Ready n Q) (t : TxnId) (commit : Bool) :
    ∃ R S r, P.settlePages t commit = (R, r) ∧ Q.settlePages t commit = (S, r) ∧ Alike R S := by
  have hcap : ∀ P : Pool Tables, (P.settlePages t commit).1.capacity = P.capacity := fun P =>
    (P.sameCache_settlePages t commit).capacity
  have hstorage := h.storage
  have hlocks := h.locks
  cases commit with
  | true =>
    obtain ⟨R, r, -, hR⟩ := flushHeld_calls hP.bounded.filed t
    obtain ⟨S, s, -, hS⟩ := flushHeld_calls hQ.bounded.filed t
    have hre := (flushHeld_spec hP.sound hP.bounded.filed hP.pages t).1
    have hse := (flushHeld_spec hQ.sound hQ.bounded.filed hQ.pages t).1
    refine ⟨_, _, _, rfl, Prod.ext rfl ?_, ⟨?_, ?_, ?_, fun q => ?_⟩⟩
    · show (Q.flushHeld t).2 = (P.flushHeld t).2
      rw [hR, hS, hstorage, h.commitCalls]
    · exact (hcap Q).trans (h.capacity.trans (hcap P).symm)
    · show (Q.flushHeld t).1.storage = (P.flushHeld t).1.storage
      rw [hR, hS, hstorage, h.commitCalls]
    · show (Q.flushHeld t).1.locks = (P.flushHeld t).1.locks
      rw [hse.locks, hre.locks, hlocks]
    · show (Q.flushHeld t).1.dirtyImage q = (P.flushHeld t).1.dirtyImage q
      rw [hre.dirtyImage_cleaned hP.bounded.filed (fun _ => True) (fun _ _ _ => rfl) (by simp),
        hse.dirtyImage_cleaned hQ.bounded.filed (fun _ => True) (fun _ _ _ => rfl) (by simp), hlocks, h.dirty]
  | false =>
    obtain ⟨hsame, hre⟩ := restoreHeld_spec hP.bounded.filed t
    obtain ⟨hsame', hse⟩ := restoreHeld_spec hQ.bounded.filed t
    have hdirty : ∀ P : Pool Tables, P.Filed → Reworked P (P.restoreHeld t) (P.locks.heldPages t) (P.aborted t) →
        ∀ q, (P.restoreHeld t).dirtyImage q =
          if q ∈ P.locks.heldPages t ∧ P.locks.modeOf q t = some .exclusive then none else P.dirtyImage q :=
      fun P hP hre => hre.dirtyImage_cleaned hP _ (fun p x hX => by rw [aborted, if_pos hX]; rfl)
        fun p x hX => by rw [aborted, if_neg hX]
    refine ⟨P.restoreHeld t, Q.restoreHeld t, .ok (), rfl, rfl, ⟨?_, ?_, ?_, fun q => ?_⟩⟩
    · exact (hcap Q).trans (h.capacity.trans (hcap P).symm)
    · rw [hsame, hsame', hstorage]
    · rw [hse.locks, hre.locks, hlocks]
    · rw [hdirty P hP.bounded.filed hre, hdirty Q hQ.bounded.filed hse, hlocks, h.dirty]

end Operations

end Pool

end PageEngine
