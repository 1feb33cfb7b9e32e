import PageEngine.Proofs.Pool.Ownership

/-!
# `Proofs/Pool/Browsing.lean` — going through the pages of a heap file

A call that looks at the pages of a heap file one after another has each of them fetched. That brings images of
its pages into the cache and drives clean ones out, and now and then a page is appended to the file. Any number of
such steps is described as one (`Pool.Browsed`):

> **what a page shows while a file is browsed is what it showed before** (`Pool.Browsed.shows`).

Only for a clean page does it matter whether it was driven out: if a client has written to its image without
marking it, the page is read again as the store has it. `Pool.Shows` leaves that open, and nothing else.
-/

set_option autoImplicit false

namespace PageEngine

open Std

namespace Pool

/-- What the pool has of a page: what its cached image holds, and what its store does if there is none. -/
def look (P : Pool Tables) (p : PageId) : PageData :=
  match P.resident[p]? with
  | some f => (P.page f).data
  | none => P.storage.contents p

theorem look_of_resident {P : Pool Tables} {p : PageId} {f : FrameId} (hf : P.resident[p]? = some f) :
    P.look p = (P.page f).data := by
  unfold look
  rw [hf]

theorem look_of_none {P : Pool Tables} {p : PageId} (h : P.resident[p]? = none) :
    P.look p = P.storage.contents p := by
  unfold look
  rw [h]

/-- The page can be seen with these contents: its cached image holds them, or its store does and it has no dirty
image in the cache. -/
def Shows (P : Pool Tables) (p : PageId) (d : PageData) : Prop :=
  (∃ f, P.resident[p]? = some f ∧ d = (P.page f).data) ∨
    (d = P.storage.contents p ∧ ∀ f, P.resident[p]? = some f → (P.page f).dirty = none)

/-- A pool over a heap file: it keeps within its bound, its locks are consistent, and the pages of `h` in its cache
are pages that `h` has. -/
structure Serves (h : HeapFile) (P : Pool Tables) : Prop where
  positive : 0 < P.capacity
  bounded : Bounded P.capacity P
  locks : P.locks.Consistent
  catalog : P.storage.catalog[h.table]? = some (.heap h)
  candid : P.storage.disk.Candid h.file
  within : ∀ (p : PageId) (f : FrameId), P.resident[p]? = some f → p.table = h.table →
    p.pageNo < P.storage.pages h.table

/-- `Q` is `P` after some pages of `h` were fetched, and perhaps some appended. -/
structure Browsed (h : HeapFile) (P Q : Pool Tables) : Prop where
  frames : P.frames.size ≤ Q.frames.size
  /-- No image has changed. -/
  images : ∀ g, g.index < P.frames.size → Q.page g = P.page g
  /-- Dirty pages are where they were. -/
  kept : ∀ (p : PageId) (g : FrameId), P.resident[p]? = some g → (P.page g).dirty ≠ none →
    Q.resident[p]? = some g
  /-- Images that have come in are new ones of pages of `h`, and hold what the store does. -/
  entered : ∀ (p : PageId) (g : FrameId), Q.resident[p]? = some g → P.resident[p]? = some g ∨
    (P.frames.size ≤ g.index ∧ p.table = h.table ∧ p.pageNo < Q.storage.pages h.table ∧
      Q.page g = Page.ofData p (Q.storage.contents p))
  pages : P.storage.pages h.table ≤ Q.storage.pages h.table
  /-- The pages that there were have their contents in the store. -/
  contents : ∀ p, p.table = h.table → p.pageNo < P.storage.pages h.table →
    Q.storage.contents p = P.storage.contents p

section Browsing

variable {h : HeapFile} {P Q R : Pool Tables}

/-- Nothing is at stake in the locks and the counters. -/
theorem browsed_of_eq (hr : Q.resident = P.resident) (hf : Q.frames = P.frames) (hs : Q.storage = P.storage) :
    Browsed h P Q where
  frames := Nat.le_of_eq (by rw [hf])
  images g _ := page_congr hf g
  kept p g hg _ := by rw [hr, hg]
  entered p g hg := .inl (hr ▸ hg)
  pages := Nat.le_of_eq (by rw [hs])
  contents p _ _ := by rw [hs]

theorem Browsed.refl (h : HeapFile) (P : Pool Tables) : Browsed h P P := browsed_of_eq rfl rfl rfl

theorem Browsed.trans (hP : P.Filed) (hQ : Q.Filed) (h₁ : Browsed h P Q) (h₂ : Browsed h Q R) : Browsed h P R where
  frames := Nat.le_trans h₁.frames h₂.frames
  images g hg := (h₂.images g (Nat.lt_of_lt_of_le hg h₁.frames)).trans (h₁.images g hg)
  kept p g hg hdirty := by
    have hlt := (hP p g hg).1
    exact h₂.kept p g (h₁.kept p g hg hdirty) (h₁.images g hlt ▸ hdirty)
  entered p g hg := by
    rcases h₂.entered p g hg with hold | ⟨hnew, ht, hlt, hpage⟩
    · rcases h₁.entered p g hold with hold' | ⟨hnew, ht, hlt, hpage⟩
      · exact .inl hold'
      · refine .inr ⟨hnew, ht, Nat.lt_of_lt_of_le hlt h₂.pages, ?_⟩
        rw [h₂.images g (hQ p g hold).1, hpage, h₂.contents p ht hlt]
    · exact .inr ⟨Nat.le_trans h₁.frames hnew, ht, hlt, hpage⟩
  pages := Nat.le_trans h₁.pages h₂.pages
  contents p ht hlt := (h₂.contents p ht (Nat.lt_of_lt_of_le hlt h₁.pages)).trans (h₁.contents p ht hlt)

/-- **A page that there was shows what it showed**, if its store holds what it held. -/
theorem Browsed.shows (hb : Browsed h P Q) (hP : P.Filed) {p : PageId}
    (hsame : Q.storage.contents p = P.storage.contents p) : P.Shows p (Q.look p) := by
  have hclean : ∀ g, Q.resident[p]? ≠ some g → P.resident[p]? = some g → (P.page g).dirty = none := by
    intro g hnot hg
    by_contra hdirty
    exact hnot (hb.kept p g hg hdirty)
  unfold look
  cases hQ : Q.resident[p]? with
  | none => exact .inr ⟨hsame, fun g hg => hclean g (by rw [hQ]; exact nofun) hg⟩
  | some f =>
    rcases hb.entered p f hQ with hold | ⟨hnew, -, -, hpage⟩
    · exact .inl ⟨f, hold, congrArg Page.data (hb.images f (hP p f hold).1)⟩
    · refine .inr ⟨?_, fun g hg => hclean g (fun hgQ => ?_) hg⟩
      · show (Q.page f).data = _
        rw [hpage]
        exact hsame
      · obtain rfl := Option.some.inj (hQ.symm.trans hgQ)
        exact absurd (hP p f hg).1 (Nat.not_lt.2 hnew)

/-- A cache into which pages of `h` have come one by one shows what the store holds. -/
theorem Browsed.shows_contents (hb : Browsed h P Q) (hempty : ∀ p : PageId, P.resident[p]? = none)
    (hsame : Q.storage = P.storage) {p : PageId} {d : PageData} (hd : Q.Shows p d) : d = P.storage.contents p := by
  rw [← hsame]
  rcases hd with ⟨f, hf, rfl⟩ | ⟨rfl, -⟩
  · rcases hb.entered p f hf with hold | ⟨-, -, -, hpage⟩
    · cases (hempty p).symm.trans hold
    · rw [hpage]
      rfl
  · rfl

/-- A page that was appended is read as zeros: there was no image of it. -/
theorem Browsed.zeros (hb : Browsed h P R) (hP : P.Serves h) (ha : P.storage.Appended h R.storage)
    {f : FrameId} (hf : R.resident[(⟨h.table, P.storage.pages h.table⟩ : PageId)]? = some f) :
    (R.page f).data = PageData.zeros := by
  rcases hb.entered _ f hf with hold | ⟨-, -, -, hpage⟩
  · exact absurd (hP.within _ f hold rfl) (Nat.lt_irrefl _)
  · rw [hpage]
    exact ha.zeros

/-! ## Steps -/

theorem Serves.fits (hP : Serves h P) : P.Fits := ⟨hP.positive, hP.bounded.size⟩

theorem Serves.withLocks (hP : Serves h P) {L : LockTable} (hL : L.Consistent) : Serves h (P.withLocks L) :=
  ⟨hP.positive, ⟨rfl, hP.bounded.size, hP.bounded.filed⟩, hL, hP.catalog, hP.candid, hP.within⟩

/-- A page is fetched. -/
theorem browsed_fetch {p : PageId} (ht : p.table = h.table) {f : FrameId}
    (hfetch : P.fetch p = (Q, .ok f)) : Browsed h P Q ∧ Q.resident[p]? = some f ∧ Q.storage = P.storage := by
  rcases P.fetch_reads p with ⟨R, g, hR, hg, hgR, hhit⟩ | ⟨R, e, -, hfail⟩ | ⟨R, x, hR, hnone, hread, hnew⟩
  · rw [fetch_of_resident hg, Prod.mk.injEq] at hfetch
    obtain ⟨rfl, hf⟩ := hfetch
    obtain rfl := Except.ok.inj hf
    exact ⟨browsed_of_eq rfl rfl rfl, hg, rfl⟩
  · rw [hfail] at hfetch
    cases hfetch
  · rw [hnew, Prod.mk.injEq] at hfetch
    obtain ⟨rfl, hf⟩ := hfetch
    obtain rfl := Except.ok.inj hf
    obtain ⟨rfl, hlt, -⟩ := Tables.readPage_ok hread
    have hsize : R.frames.size = P.frames.size := congrArg Array.size hR.frames
    refine ⟨?_, by rw [resident_cache, if_pos rfl], hR.storage⟩
    constructor
    · show P.frames.size ≤ (R.frames.push _).size
      rw [Array.size_push, hsize]
      exact Nat.le_succ _
    · intro g hg
      exact (page_addFrame_of_lt (hsize ▸ hg) _).trans (page_congr hR.frames g)
    · intro q g hg hdirty
      have hqp : q ≠ p := by
        rintro rfl
        cases hnone.symm.trans hg
      obtain ⟨u, hu⟩ := Option.ne_none_iff_exists'.1 hdirty
      rw [resident_cache, if_neg hqp]
      exact hR.resident_of_dirty hg hu
    · intro q g hg
      rw [resident_cache] at hg
      split at hg
      · rename_i hq
        obtain rfl := Option.some.inj hg
        subst hq
        refine .inr ⟨Nat.le_of_eq hsize.symm, ht, ?_, ?_⟩
        · show q.pageNo < R.storage.pages h.table
          rw [hR.storage, ← ht]
          exact hlt
        · show _ = Page.ofData q (R.storage.contents q)
          rw [hR.storage]
          exact page_nextFrame R _
      · exact .inl (hR.resident_of_some hg)
    · exact Nat.le_of_eq (by rw [← hR.storage]; rfl)
    · intro q _ _
      rw [← hR.storage]
      rfl

theorem Serves.fetch (hP : Serves h P) {p : PageId} (ht : p.table = h.table) {f : FrameId}
    (hfetch : P.fetch p = (Q, .ok f)) : Serves h Q := by
  obtain ⟨hb, -, hs⟩ := browsed_fetch ht hfetch
  have heffect := effect_run (o := .fetch p) readsOwn_tables hP.positive hP.bounded trivial
  have hlocks := P.locks_fetch p
  rw [CacheOp.run, hfetch] at heffect
  rw [hfetch] at hlocks
  refine ⟨heffect.capacity ▸ hP.positive, heffect.capacity ▸ heffect.bounded hP.bounded, hlocks ▸ hP.locks,
    hs ▸ hP.catalog, hs ▸ hP.candid, fun q g hg hq => ?_⟩
  rcases hb.entered q g hg with hold | ⟨-, -, hlt, -⟩
  · exact Nat.lt_of_lt_of_le (hP.within q g hold hq) hb.pages
  · exact hlt

/-- Fetching a page of `h` fails if its file does, or if every place is taken by a dirty page, and else not. -/
theorem Serves.fetch_error (hP : Serves h P) {p : PageId} (ht : p.table = h.table)
    (hp : p.pageNo < P.storage.pages h.table) (hmax : P.storage.pages h.table ≤ maxPageNo) {e : Error}
    (hfetch : P.fetch p = (Q, .error e)) :
    (P.storage.disk.Blind h.file ∧ e = diskUnavailable) ∨ (P.Clogged ∧ e = .everyPageDirty) := by
  cases hr : P.resident[p]? with
  | some f =>
    rw [fetch_of_resident hr] at hfetch
    cases hfetch
  | none =>
    have hcat : P.storage.catalog[p.table]? = some (.heap h) := ht ▸ hP.catalog
    rcases Tables.readPage_of_candid hcat ht.symm hP.candid (ht ▸ hp) (ht ▸ hmax) with
      ⟨hblind, hread⟩ | ⟨x, hread⟩
    · have hmiss : Storage.readPage P.storage p = (P.storage, .error diskUnavailable) := Prod.ext rfl hread
      rw [fetch_of_unread hr hmiss] at hfetch
      exact .inl ⟨hblind, (Except.error.inj (Prod.mk.inj hfetch).2).symm⟩
    · have hin : Storage.readPage P.storage p = (P.storage, .ok x) := Prod.ext rfl hread
      have hcomes := comesIn_of_read hP.fits hr hin
      rw [hfetch] at hcomes
      exact .inr ((hcomes.fails e).1 rfl)

/-- A page is appended. -/
theorem Serves.append (hP : Serves h P) {d : Tables} (hd : Tables.Appended h P.storage d) :
    Serves h { P with storage := d } ∧ Browsed h P { P with storage := d } := by
  have hpages : P.storage.pages h.table ≤ d.pages h.table := hd.pages ▸ Nat.le_succ _
  refine ⟨⟨hP.positive, ⟨rfl, hP.bounded.size, hP.bounded.filed⟩, hP.locks, hd.catalog ▸ hP.catalog, hd.candid,
    fun p f hf ht => Nat.lt_of_lt_of_le (hP.within p f hf ht) hpages⟩, ?_⟩
  refine ⟨Nat.le_refl _, fun _ _ => rfl, fun _ _ hg _ => hg, fun _ _ hg => .inl hg, hpages,
    fun p ht hlt => hd.contents p ht ?_⟩
  rintro rfl
  exact Nat.lt_irrefl _ hlt

end Browsing

end Pool

end PageEngine
