import PageEngine.Pool.Cache
import PageEngine.Proofs.Storage.Contents

/-!
# `Proofs/Pool/Cache.lean` — what making room, fetching and installing leave as it was

Room is made by dropping clean pages from the cache, and by nothing else: no frame changes, no lock and
no byte of the storage. `Pool.Shrunk` says this of two pools, and the other operations of the cache are
described by what they do besides:

> **a fetch caches at most one new frame**, with the contents that the store has for the page, and an
> install marks one frame and makes it the cached one of its page.
-/

set_option autoImplicit false

namespace PageEngine

open Std

namespace Page

@[simp] theorem isClean_iff (p : Page) : p.isClean = true ↔ p.dirty = none := by
  simp [isClean]

@[simp] theorem markDirty_id (p : Page) (t : TxnId) : (p.markDirty t).id = p.id := rfl
@[simp] theorem markDirty_data (p : Page) (t : TxnId) : (p.markDirty t).data = p.data := rfl
@[simp] theorem markDirty_dirty (p : Page) (t : TxnId) : (p.markDirty t).dirty = some t := rfl
@[simp] theorem markDirty_beforeImage (p : Page) (t : TxnId) :
    (p.markDirty t).beforeImage = p.beforeImage := rfl

@[simp] theorem withData_id (p : Page) (d : PageData) : (p.withData d).id = p.id := rfl
@[simp] theorem withData_data (p : Page) (d : PageData) : (p.withData d).data = d := rfl
@[simp] theorem withData_dirty (p : Page) (d : PageData) : (p.withData d).dirty = p.dirty := rfl
@[simp] theorem withData_beforeImage (p : Page) (d : PageData) :
    (p.withData d).beforeImage = p.beforeImage := rfl

theorem withData_self (p : Page) : p.withData p.data = p := rfl

theorem markClean_of_clean {p : Page} (h : p.dirty = none) : p.markClean = p := by
  rw [markClean, setOwner, ← h]

end Page

namespace Pool

/-! ## Frames -/

section Frames

variable {δ : Type}

theorem page_setPage (P : Pool δ) (f : FrameId) (x : Page) (g : FrameId) :
    (P.setPage f x).page g = if g = f ∧ f.index < P.frames.size then x else P.page g := by
  simp only [page, setPage, Array.getElem?_setIfInBounds]
  by_cases hg : g = f
  · subst hg
    by_cases hlt : g.index < P.frames.size <;> simp [hlt]
  · have hne : f.index ≠ g.index := by
      intro he
      cases f
      cases g
      exact hg (by simp_all)
    simp [hg, hne]

theorem page_setPage_of_ne (P : Pool δ) {f g : FrameId} (x : Page) (hg : g ≠ f) :
    (P.setPage f x).page g = P.page g := by
  rw [page_setPage, if_neg fun h => hg h.1]

/-- An image that is replaced by one of its page leaves every frame an image of its page. -/
theorem id_setPage (P : Pool δ) {f : FrameId} {x : Page} (hx : x.id = (P.page f).id) (g : FrameId) :
    ((P.setPage f x).page g).id = (P.page g).id := by
  rw [page_setPage]
  split
  · rename_i h
    rw [h.1, hx]
  · rfl

@[simp] theorem size_setPage (P : Pool δ) (f : FrameId) (x : Page) :
    (P.setPage f x).frames.size = P.frames.size := by
  simp [setPage]

theorem page_addFrame_of_lt {P : Pool δ} {g : FrameId} (h : g.index < P.frames.size) (x : Page) :
    (P.addFrame x).page g = P.page g := by
  simp [page, addFrame, Array.getElem?_push, Nat.ne_of_lt h]

theorem page_nextFrame (P : Pool δ) (x : Page) : (P.addFrame x).page P.nextFrame = x := by
  simp [page, addFrame, nextFrame]

theorem resident_cache (P : Pool δ) (p : PageId) (f : FrameId) (q : PageId) :
    (P.cache p f).resident[q]? = if q = p then some f else P.resident[q]? := by
  simp only [cache, ExtTreeMap.getElem?_insert, Std.compare_eq_iff_eq, eq_comm (a := p)]

theorem page_congr {P Q : Pool δ} (h : Q.frames = P.frames) (f : FrameId) : Q.page f = P.page f := by
  rw [page, page, h]

end Frames

theorem create_ok {δ : Type} {capacity : Nat} {draws : Draws} {d : δ} {P : Pool δ}
    (h : create capacity draws d = .ok P) : 0 < capacity ∧ P = { capacity, storage := d, draws } := by
  unfold create at h
  split at h
  · cases h
  · exact ⟨by omega, (Except.ok.inj h).symm⟩

/-! ## Making room -/

/-- `P'` is `P` with some clean pages dropped from its cache. -/
structure Shrunk {δ : Type} (P P' : Pool δ) : Prop where
  storage : P'.storage = P.storage
  locks : P'.locks = P.locks
  frames : P'.frames = P.frames
  resident : ∀ p : PageId, P'.resident[p]? = P.resident[p]? ∨
    P'.resident[p]? = none ∧ ∃ f, P.resident[p]? = some f ∧ (P.page f).dirty = none

section Room

variable {δ : Type}

theorem Shrunk.refl (P : Pool δ) : Shrunk P P := ⟨rfl, rfl, rfl, fun _ => .inl rfl⟩

theorem Shrunk.trans {P Q R : Pool δ} (h : Shrunk P Q) (h' : Shrunk Q R) : Shrunk P R where
  storage := h'.storage.trans h.storage
  locks := h'.locks.trans h.locks
  frames := h'.frames.trans h.frames
  resident p := by
    rcases h'.resident p with hkeep | ⟨hnone, f, hf, hclean⟩
    · rw [hkeep]
      exact h.resident p
    · rcases h.resident p with hkeep | ⟨hnone', -⟩
      · exact .inr ⟨hnone, f, hkeep ▸ hf, page_congr h.frames f ▸ hclean⟩
      · rw [hnone'] at hf
        cases hf

theorem Shrunk.resident_of_some {P P' : Pool δ} (h : Shrunk P P') {p : PageId} {f : FrameId}
    (hf : P'.resident[p]? = some f) : P.resident[p]? = some f := by
  rcases h.resident p with hkeep | ⟨hnone, -⟩
  · rw [← hkeep, hf]
  · rw [hnone] at hf
    cases hf

theorem Shrunk.resident_of_dirty {P P' : Pool δ} (h : Shrunk P P') {p : PageId} {f : FrameId}
    {t : TxnId} (hf : P.resident[p]? = some f) (ht : (P.page f).dirty = some t) :
    P'.resident[p]? = some f := by
  rcases h.resident p with hkeep | ⟨-, g, hg, hclean⟩
  · rw [hkeep, hf]
  · rw [hf, Option.some.injEq] at hg
    rw [← hg, ht] at hclean
    cases hclean

theorem shrunk_of_eq {P P' : Pool δ} (hs : P'.storage = P.storage) (hl : P'.locks = P.locks)
    (hf : P'.frames = P.frames) (hr : P'.resident = P.resident) : Shrunk P P' :=
  ⟨hs, hl, hf, fun p => .inl (by rw [hr])⟩

variable [Storage δ]

omit [Storage δ] in
theorem evictable_iff {P : Pool δ} {p : PageId} :
    P.evictable p = true ↔ ∃ f, P.resident[p]? = some f ∧ (P.page f).dirty = none := by
  unfold evictable
  cases P.resident[p]? with
  | none => simp
  | some f => simp

/-- A clean page is evicted without asking the storage for anything. -/
theorem evictPage_of_clean {P : Pool δ} {p : PageId} {f : FrameId} (hf : P.resident[p]? = some f)
    (hclean : (P.page f).dirty = none) :
    P.evictPage p = ((P.discard p).tally fun c => { c with evictions := c.evictions + 1 }, .ok ()) := by
  have hw : P.writeBack f = (P, .ok false) := by simp [writeBack, Page.isClean, hclean]
  simp only [evictPage, hf, hw]

/-- Evicting a clean page drops it, and does not write. -/
theorem shrunk_evictPage {P : Pool δ} {p : PageId} (h : P.evictable p = true) :
    Shrunk P (P.evictPage p).1 := by
  obtain ⟨f, hf, hclean⟩ := evictable_iff.1 h
  rw [evictPage_of_clean hf hclean]
  refine ⟨rfl, rfl, rfl, ?_⟩
  intro q
  by_cases hq : q = p
  · subst hq
    exact .inr ⟨by simp [discard, tally], f, hf, hclean⟩
  · exact .inl (by simp [discard, tally, ExtTreeMap.getElem?_erase, Ne.symm hq])

theorem shrunk_evict (P : Pool δ) : Shrunk P P.evict.1 := by
  unfold evict
  dsimp only
  split
  · exact .refl P
  · split
    · exact shrunk_of_eq rfl rfl rfl rfl
    · rename_i p hp
      have hdraw : Shrunk P { P with draws := (P.draws.below P.residentPages.length).2 } :=
        shrunk_of_eq rfl rfl rfl rfl
      exact hdraw.trans (shrunk_evictPage (List.find?_some hp))

theorem shrunk_evictMany (n : Nat) : ∀ P : Pool δ, Shrunk P (P.evictMany n).1 := by
  induction n with
  | zero => exact .refl
  | succ n ih =>
    intro P
    have hone := P.shrunk_evict
    unfold evictMany
    split
    · rename_i R e hR
      rwa [hR] at hone
    · rename_i R hR
      rw [hR] at hone
      exact hone.trans (ih R)

/-- **Making room drops clean pages and does nothing else.** -/
theorem shrunk_makeRoom (P : Pool δ) : Shrunk P P.makeRoom.1 := shrunk_evictMany _ P

theorem takeIn_cases (P : Pool δ) (p : PageId) (f : FrameId) :
    (∃ R e, Shrunk P R ∧ P.takeIn p f = (R, .error e)) ∨
    (∃ R, Shrunk P R ∧ P.takeIn p f = (R.cache p f, .ok ())) := by
  have hroom := P.shrunk_makeRoom
  unfold takeIn
  split
  · rename_i R e hR
    rw [hR] at hroom
    exact .inl ⟨R, e, hroom, rfl⟩
  · rename_i R hR
    rw [hR] at hroom
    exact .inr ⟨R, hroom, rfl⟩

/-! ## Installing -/

theorem install_of_resident {P : Pool δ} {f : FrameId} (hf : P.resident[(P.page f).id]? = some f)
    (t : TxnId) : P.install t f = (P.setPage f ((P.page f).markDirty t), .ok ()) := by
  have hres : (P.setPage f ((P.page f).markDirty t)).resident = P.resident := rfl
  simp only [install, Page.markDirty_id, hres, hf, if_true]

/-- A cached image is installed by marking it. -/
theorem installAll_of_resident {P : Pool δ} {f : FrameId} (hf : P.resident[(P.page f).id]? = some f) (t : TxnId) :
    P.installAll t [f] = (P.setPage f ((P.page f).markDirty t), .ok ()) := by
  simp only [installAll, install_of_resident hf t]

theorem install_of_other {P : Pool δ} {f g : FrameId} (hg : P.resident[(P.page f).id]? = some g)
    (hne : g ≠ f) (t : TxnId) : P.install t f =
      ((P.setPage f ((P.page f).markDirty t)).cache (P.page f).id f, .ok ()) := by
  have hres : (P.setPage f ((P.page f).markDirty t)).resident = P.resident := rfl
  simp only [install, Page.markDirty_id, hres, hg, if_neg hne]

theorem install_of_none {P : Pool δ} {f : FrameId} (hnone : P.resident[(P.page f).id]? = none)
    (t : TxnId) :
    P.install t f = (P.setPage f ((P.page f).markDirty t)).takeIn (P.page f).id f := by
  have hres : (P.setPage f ((P.page f).markDirty t)).resident = P.resident := rfl
  simp only [install, Page.markDirty_id, hres, hnone]

/-- An install marks its frame. A frame that is cached already stays so, one whose page is cached
otherwise takes its place, and else it is cached if there is room. -/
theorem install_cases (P : Pool δ) (t : TxnId) (f : FrameId) :
    (P.resident[(P.page f).id]? = some f ∧
      P.install t f = (P.setPage f ((P.page f).markDirty t), .ok ())) ∨
    (∃ g, P.resident[(P.page f).id]? = some g ∧ g ≠ f ∧ P.install t f =
      ((P.setPage f ((P.page f).markDirty t)).cache (P.page f).id f, .ok ())) ∨
    (P.resident[(P.page f).id]? = none ∧ ∃ R, Shrunk (P.setPage f ((P.page f).markDirty t)) R ∧
      ((∃ e, P.install t f = (R, .error e)) ∨
        P.install t f = (R.cache (P.page f).id f, .ok ()))) := by
  cases hr : P.resident[(P.page f).id]? with
  | none =>
    refine .inr (.inr ⟨rfl, ?_⟩)
    have hi := install_of_none hr t
    rcases takeIn_cases (P.setPage f ((P.page f).markDirty t)) (P.page f).id f with
      ⟨R, e, hR, htake⟩ | ⟨R, hR, htake⟩
    · exact ⟨R, hR, .inl ⟨e, hi.trans htake⟩⟩
    · exact ⟨R, hR, .inr (hi.trans htake)⟩
  | some g =>
    by_cases hg : g = f
    · subst hg
      exact .inl ⟨rfl, install_of_resident hr t⟩
    · exact .inr (.inl ⟨g, rfl, hg, install_of_other hr hg t⟩)

theorem size_install (P : Pool δ) (t : TxnId) (f : FrameId) :
    (P.install t f).1.frames.size = P.frames.size := by
  have hset := P.size_setPage f ((P.page f).markDirty t)
  rcases P.install_cases t f with ⟨-, h⟩ | ⟨g, -, -, h⟩ | ⟨-, R, hR, ⟨e, h⟩ | h⟩
  · rw [h]
    exact hset
  · rw [h]
    exact hset
  · rw [h, hR.frames]
    exact hset
  · rw [h]
    exact (congrArg Array.size hR.frames).trans hset

end Room

/-! ## Fetching -/

theorem fetch_of_resident {δ : Type} [Storage δ] {P : Pool δ} {p : PageId} {f : FrameId}
    (hf : P.resident[p]? = some f) :
    P.fetch p = (P.tally fun c => { c with hits := c.hits + 1 }, .ok f) := by
  simp only [fetch, hf]

/-- A fetch finds the cached frame, or fails, or caches a new frame with the page that was read. Nothing is
assumed of the files. -/
theorem fetch_reads (P : Pool Tables) (p : PageId) :
    (∃ R f, Shrunk P R ∧ P.resident[p]? = some f ∧ R.resident[p]? = some f ∧
      P.fetch p = (R, .ok f)) ∨
    (∃ R e, Shrunk P R ∧ P.fetch p = (R, .error e)) ∨
    (∃ R x, Shrunk P R ∧ P.resident[p]? = none ∧ P.storage.readPage p = .ok x ∧
      P.fetch p = ((R.addFrame x).cache p R.nextFrame, .ok R.nextFrame)) := by
  cases hr : P.resident[p]? with
  | some f =>
    exact .inl ⟨P.tally fun c => { c with hits := c.hits + 1 }, f, shrunk_of_eq rfl rfl rfl rfl, rfl,
      hr, fetch_of_resident hr⟩
  | none =>
    have hmiss : Shrunk P (P.tally fun c => { c with misses := c.misses + 1 }) :=
      shrunk_of_eq rfl rfl rfl rfl
    have hroom := hmiss.trans (shrunk_makeRoom _)
    cases hread : P.storage.readPage p with
    | error e =>
      refine .inr (.inl ⟨_, e, hmiss, ?_⟩)
      simp only [fetch, hr, Storage.readPage, tally, hread]
    | ok page =>
      rcases hR : (P.tally fun c => { c with misses := c.misses + 1 }).makeRoom with ⟨R, r⟩
      rw [hR] at hroom
      cases r with
      | error e =>
        refine .inr (.inl ⟨R, e, hroom, ?_⟩)
        simp only [tally] at hR
        simp only [fetch, hr, Storage.readPage, tally, hread, hR]
      | ok u =>
        refine .inr (.inr ⟨R, page, hroom, rfl, rfl, ?_⟩)
        simp only [tally] at hR
        simp only [fetch, hr, Storage.readPage, tally, hread, hR]

/-- A page that was fetched is cached. -/
theorem resident_of_fetch {P Q : Pool Tables} {p : PageId} {f : FrameId} (h : P.fetch p = (Q, .ok f)) :
    Q.resident[p]? = some f := by
  rcases P.fetch_reads p with ⟨R, g, -, -, hg, hfetch⟩ | ⟨R, e, -, hfetch⟩ | ⟨R, x, -, -, -, hfetch⟩
  all_goals
    rw [hfetch, Prod.mk.injEq] at h
    obtain ⟨rfl, hf⟩ := h
  · rw [hg, Except.ok.inj hf]
  · cases hf
  · rw [resident_cache, if_pos rfl, Except.ok.inj hf]

/-- **A fetch finds the cached frame, or fails, or caches a new frame with the contents that the store
has for the page.** -/
theorem fetch_cases (P : Pool Tables) (p : PageId) :
    (∃ R f, Shrunk P R ∧ P.resident[p]? = some f ∧ R.resident[p]? = some f ∧
      P.fetch p = (R, .ok f)) ∨
    (∃ R e, Shrunk P R ∧ P.fetch p = (R, .error e)) ∨
    (∃ R, Shrunk P R ∧ P.resident[p]? = none ∧ P.storage.HasPage p ∧ P.fetch p =
      ((R.addFrame (Page.ofData p (P.storage.contents p))).cache p R.nextFrame,
        .ok R.nextFrame)) := by
  rcases P.fetch_reads p with hfound | hfails | ⟨R, page, hR, hnone, hread, hfetch⟩
  · exact .inl hfound
  · exact .inr (.inl hfails)
  · obtain ⟨rfl, hp⟩ := Tables.readPage_ok hread
    exact .inr (.inr ⟨R, hR, hnone, hp, hfetch⟩)

theorem makeRoom_of_lt {δ : Type} [Storage δ] {P : Pool δ} (h : P.resident.size < P.capacity) :
    P.makeRoom = (P, .ok ()) := by
  have hzero : P.resident.size + 1 - P.capacity = 0 := by omega
  rw [makeRoom, hzero]
  rfl

/-- Where there is room every page of a table can be fetched. -/
theorem fetch_of_room {P : Pool Tables} (hd : P.storage.Sound) {p : PageId}
    (hnone : P.resident[p]? = none) (hroom : P.resident.size < P.capacity)
    (hp : p.pageNo < P.storage.pages p.table) (hmax : P.storage.pages p.table ≤ maxPageNo) :
    P.fetch p = (((P.tally fun c => { c with misses := c.misses + 1 }).addFrame
      (Page.ofData p (P.storage.contents p))).cache p P.nextFrame, .ok P.nextFrame) := by
  have hread := Tables.readPage_eq hd hp hmax
  have hmake := makeRoom_of_lt
    (P := P.tally fun c => { c with misses := c.misses + 1 }) hroom
  simp only [tally] at hmake
  simp only [fetch, hnone, Storage.readPage, tally, hread, hmake]
  rfl

/-- A page that is read into the cache can be written to and installed. -/
theorem install_fresh {P : Pool Tables} (hd : P.storage.Sound) {p : PageId}
    (hnone : P.resident[p]? = none) (hroom : P.resident.size < P.capacity)
    (hp : p.pageNo < P.storage.pages p.table) (hmax : P.storage.pages p.table ≤ maxPageNo) (t : TxnId) :
    ∃ Q, P.fetch p = (Q, .ok P.nextFrame) ∧ (Q.page P.nextFrame).data = P.storage.contents p ∧
      Q.storage = P.storage ∧ Q.locks = P.locks ∧
      ∀ d, ∃ R, (Q.setPage P.nextFrame ((Q.page P.nextFrame).withData d)).install t P.nextFrame =
          (R, .ok ()) ∧
        R.storage = P.storage ∧ R.locks = P.locks ∧ R.capacity = P.capacity ∧
        R.resident = P.resident.insert p P.nextFrame ∧ R.frames.size = P.frames.size + 1 ∧
        (R.page P.nextFrame).data = d := by
  have hfetch := fetch_of_room hd hnone hroom hp hmax
  have hpage := page_nextFrame (P.tally fun c => { c with misses := c.misses + 1 })
    (Page.ofData p (P.storage.contents p))
  refine ⟨_, hfetch, congrArg Page.data hpage, rfl, rfl, fun d => ?_⟩
  generalize hQ : ((P.tally fun c => { c with misses := c.misses + 1 }).addFrame
    (Page.ofData p (P.storage.contents p))).cache p P.nextFrame = Q
  have hQpage : Q.page P.nextFrame = Page.ofData p (P.storage.contents p) := by
    rw [← hQ]
    exact hpage
  have hsize : Q.frames.size = P.frames.size + 1 := by
    rw [← hQ]
    simp [cache, addFrame, tally]
  have hlt : P.nextFrame.index < Q.frames.size := by
    rw [hsize]
    exact Nat.lt_succ_self _
  have hself : (Q.setPage P.nextFrame ((Q.page P.nextFrame).withData d)).page P.nextFrame =
      (Q.page P.nextFrame).withData d := by
    rw [page_setPage, if_pos ⟨rfl, hlt⟩]
  have hres : Q.resident[p]? = some P.nextFrame := by
    rw [← hQ, resident_cache, if_pos rfl]
  refine ⟨_, install_of_resident ?_ t, ?_⟩
  · rw [hself, Page.withData_id, hQpage]
    exact hres
  · rw [hself]
    subst hQ
    refine ⟨rfl, rfl, rfl, rfl, ?_, ?_⟩
    · simp [setPage, cache, addFrame, tally]
    · rw [page_setPage, if_pos ⟨rfl, by rw [size_setPage]; exact hlt⟩]
      rfl

theorem keys_insert_empty (p : PageId) (f : FrameId) :
    ((∅ : ExtTreeMap PageId FrameId).insert p f).keys = [p] := by
  have hlen : ((∅ : ExtTreeMap PageId FrameId).insert p f).keys.length = 1 := by
    rw [ExtTreeMap.length_keys, ExtTreeMap.size_insert]
    simp
  obtain ⟨q, hq⟩ := List.length_eq_one_iff.1 hlen
  have hmem : p ∈ ((∅ : ExtTreeMap PageId FrameId).insert p f).keys := by
    rw [ExtTreeMap.mem_keys]
    exact ExtTreeMap.mem_insert_self
  rw [hq, List.mem_singleton] at hmem
  rw [hq, hmem]

/-- If only one page is cached and it is clean, it is the one that is evicted. -/
theorem evict_of_sole {δ : Type} [Storage δ] {P : Pool δ} {p : PageId} {f : FrameId}
    (hres : P.resident = (∅ : ExtTreeMap PageId FrameId).insert p f)
    (hclean : (P.page f).dirty = none) :
    ∃ draws counters, P.evict = ({ P with draws, counters, resident := P.resident.erase p }, .ok ()) := by
  have hpages : P.residentPages = [p] := by rw [residentPages, hres, keys_insert_empty]
  have hf : P.resident[p]? = some f := by simp [hres]
  have hrotate : ∀ n, [p].rotateLeft n = [p] := by simp [List.rotateLeft]
  have hfind : ([p].find? (Pool.evictable { P with draws := (P.draws.below 1).2 })) = some p := by
    rw [List.find?_singleton, if_pos]
    simp only [evictable, hf]
    exact (Page.isClean_iff _).2 hclean
  have hwrite : Pool.writeBack { P with draws := (P.draws.below 1).2 } f =
      ({ P with draws := (P.draws.below 1).2 }, .ok false) := by
    rw [writeBack]
    exact if_pos ((Page.isClean_iff _).2 hclean)
  refine ⟨(P.draws.below 1).2, { P.counters with evictions := P.counters.evictions + 1 }, ?_⟩
  simp only [evict, hpages, List.isEmpty_cons, Bool.false_eq_true, if_false, List.length_singleton,
    hrotate, hfind]
  simp only [evictPage, hf, hwrite]
  rfl

/-- A pool that has room for one page gives up the clean page that it has for another one. -/
theorem fetch_of_sole {P : Pool Tables} (hd : P.storage.Sound) {p q : PageId} {f : FrameId}
    (hcap : P.capacity = 1) (hres : P.resident = (∅ : ExtTreeMap PageId FrameId).insert p f)
    (hclean : (P.page f).dirty = none) (hne : p ≠ q) (hq : q.pageNo < P.storage.pages q.table)
    (hmax : P.storage.pages q.table ≤ maxPageNo) :
    ∃ draws counters, P.fetch q =
      ({ P with
          draws
          counters
          frames := P.frames.push (Page.ofData q (P.storage.contents q))
          resident := (P.resident.erase p).insert q P.nextFrame }, .ok P.nextFrame) := by
  have hread := Tables.readPage_eq hd hq hmax
  have hnone : P.resident[q]? = none := by simp [hres, hne]
  have hroom : P.resident.size + 1 - P.capacity = 1 := by
    simp [hcap, hres, ExtTreeMap.size_insert]
  obtain ⟨draws, counters, hevict⟩ := evict_of_sole
    (P := { P with counters := { P.counters with misses := P.counters.misses + 1 } }) hres hclean
  refine ⟨draws, counters, ?_⟩
  simp only [fetch, hnone, Storage.readPage, tally, hread, makeRoom, hroom, evictMany, hevict]
  rfl

end Pool

end PageEngine
