import PageEngine.Proofs.World.Invariant

/-!
# `Proofs/World/Keeping.lean` — the ways in which a section changes a pool

Every section changes the pool in one of a few ways: it drops clean pages, changes the locks of its own
transaction, caches a new frame, writes into a frame that nobody else can see, marks and caches such a
frame, ends its transaction, or adds pages and tables to the storage. For each of them:

> **the invariant is kept, and so is what the other transactions rely on.**

`Keeps` says both at once and is transitive.
-/

set_option autoImplicit false

namespace PageEngine

open Std

section Keeping

variable {origin : PageId → PageData} {ch ch' : FrameId → Prop} {t u : TxnId} {P P' P'' : Pool Tables}
  {h h' h'' : History} {p : PageId} {f : FrameId}

/-! ## Going on in several steps -/

theorem Rely.trans (hr : Rely u P P' h h') (hr' : Rely u P' P'' h' h'') : Rely u P P'' h h'' where
  modes p := (hr'.modes p).trans (hr.modes p)
  size := Nat.le_trans hr.size hr'.size
  frames f hlt hp := by
    have heq := hr.frames f hlt hp
    rw [hr'.frames f (Nat.lt_of_lt_of_le hlt hr.size) (by rw [heq, hr.modes]; exact hp), heq]
  resident p hX := by
    rcases hr'.resident p (by rw [hr.modes, hX]) with hkeep | hnone
    · rw [hkeep]
      exact hr.resident p hX
    · exact .inr hnone
  contents p hp hheld := by
    rw [hr'.contents p (hr.hasPage p hp) (by rw [hr.modes]; exact hheld), hr.contents p hp hheld]
  hasPage p hp := hr'.hasPage p (hr.hasPage p hp)
  catalog t s hs := hr'.catalog t s (hr.catalog t s hs)
  own p := (hr'.own p).trans (hr.own p)

theorem Keeps.trans (hk : Keeps origin t ch P h P' h') (hk' : Keeps origin t ch' P' h' P'' h'') :
    Keeps origin t ch' P h P'' h'' :=
  ⟨hk'.pool, fun u hu => (hk.rely u hu).trans (hk'.rely u hu)⟩

/-- Events that are no changes do not show. -/
theorem Rely.of_history (hown : ∀ p, History.own u p h' = History.own u p h) : Rely u P P h h' where
  modes _ := rfl
  size := Nat.le_refl _
  frames _ _ _ := rfl
  resident _ _ := .inl rfl
  contents _ _ _ := rfl
  hasPage _ hp := hp
  catalog _ _ hs := hs
  own := hown

theorem Cached.mono (hc : Cached ch P h p f) (hch : ch f → ch' f) : Cached ch' P h p f where
  image := hc.image
  clean hdirty hf := hc.clean hdirty fun hf' => hf (hch hf')
  dirty s hs := by
    obtain ⟨hX, d, hd, hdata⟩ := hc.dirty s hs
    exact ⟨hX, d, hd, fun hf => hdata fun hf' => hf (hch hf')⟩

theorem PoolInv.keeps_of_history (hi : PoolInv origin ch P h)
    (hown : ∀ s q, History.own s q h' = History.own s q h)
    (hcom : ∀ q, History.committed origin q h' = History.committed origin q h)
    (hch : ∀ g, ch g → ch' g) : Keeps origin t ch' P h P h' where
  pool :=
    { sound := hi.sound
      locks := hi.locks
      stored := fun q => (hi.stored q).trans (hcom q).symm
      cached := fun q g hg => by
        have hc := (hi.cached q g hg).mono (hch g)
        exact ⟨hc.image, hc.clean, fun s hs => by rw [hown]; exact hc.dirty s hs⟩
      owned := fun s q d hd => hi.owned s q d ((hown s q).symm.trans hd) }
  rely u _ := .of_history (hown u)

theorem PoolInv.keeps_refl (hi : PoolInv origin ch P h) (hch : ∀ g, ch g → ch' g) :
    Keeps origin t ch' P h P h :=
  hi.keeps_of_history (fun _ _ => rfl) (fun _ => rfl) hch

/-! ## The cache and the locks -/

theorem PoolInv.own_of_clean (hi : PoolInv origin ch P h) (hf : P.resident[p]? = some f)
    (hclean : (P.page f).dirty = none) : History.own t p h = none := by
  cases hown : History.own t p h with
  | none => rfl
  | some d =>
    obtain ⟨g, hg, hdirty⟩ := hi.owned t p d hown
    rw [hf, Option.some.injEq] at hg
    rw [← hg, hclean] at hdirty
    cases hdirty

theorem PoolInv.exclusive_of_own (hi : PoolInv origin ch P h) {d : PageData}
    (hd : History.own t p h = some d) : P.locks.modeOf p t = some .exclusive := by
  obtain ⟨f, hf, hdirty⟩ := hi.owned t p d hd
  exact ((hi.cached p f hf).dirty t hdirty).1

/-- Nobody else has changed a page that `t` holds. -/
theorem PoolInv.own_none_of_held (hi : PoolInv origin ch P h) (hheld : (P.locks.modeOf p t).isSome)
    (hu : u ≠ t) : History.own u p h = none := by
  cases hown : History.own u p h with
  | none => rfl
  | some d =>
    exact absurd (LockTable.eq_of_modeOf_exclusive (hi.exclusive_of_own hown) hheld) hu.symm

theorem PoolInv.hasPage_of_own (hi : PoolInv origin ch P h) {d : PageData}
    (hd : History.own t p h = some d) : P.storage.HasPage p := by
  obtain ⟨f, hf, -⟩ := hi.owned t p d hd
  exact (hi.cached p f hf).image.hasPage

theorem Image.congr (hi : Image P p f) (hs : P'.storage = P.storage) (hp : P'.page f = P.page f)
    (hn : P.frames.size ≤ P'.frames.size) : Image P' p f where
  index_lt := Nat.lt_of_lt_of_le hi.index_lt hn
  id_eq := by rw [hp, hi.id_eq]
  hasPage := by rw [hs]; exact hi.hasPage
  before_eq := by rw [hp, hs, hi.before_eq]

theorem Cached.congr (hc : Cached ch P h p f) (hs : P'.storage = P.storage)
    (hl : P'.locks = P.locks) (hp : P'.page f = P.page f) (hn : P.frames.size ≤ P'.frames.size) :
    Cached ch P' h p f where
  image := hc.image.congr hs hp hn
  clean := by rw [hp, hs]; exact hc.clean
  dirty := by rw [hp, hl]; exact hc.dirty

theorem PoolInv.filed (hi : PoolInv origin ch P h) : P.Filed := fun p f hf =>
  ⟨(hi.cached p f hf).image.index_lt, (hi.cached p f hf).image.id_eq⟩

/-- **Evictions are not noticed.** -/
theorem PoolInv.keeps_shrunk (hi : PoolInv origin ch P h) (hs : Pool.Shrunk P P') :
    Keeps origin t ch P h P' h where
  pool :=
    { sound := by rw [hs.storage]; exact hi.sound
      locks := by rw [hs.locks]; exact hi.locks
      stored := by rw [hs.storage]; exact hi.stored
      cached := fun q g hg =>
        (hi.cached q g (hs.resident_of_some hg)).congr hs.storage hs.locks
          (Pool.page_congr hs.frames g) (Nat.le_of_eq (by rw [hs.frames]))
      owned := fun s q d hd => by
        obtain ⟨g, hg, hdirty⟩ := hi.owned s q d hd
        exact ⟨g, hs.resident_of_dirty hg hdirty, by rw [Pool.page_congr hs.frames]; exact hdirty⟩ }
  rely u _ :=
    { modes := fun q => by rw [hs.locks]
      size := Nat.le_of_eq (by rw [hs.frames])
      frames := fun g _ _ => Pool.page_congr hs.frames g
      resident := fun q _ => (hs.resident q).imp_right And.left
      contents := fun q _ _ => by rw [hs.storage]
      hasPage := fun q hq => by rw [hs.storage]; exact hq
      catalog := fun s r hr => by rw [hs.storage]; exact hr
      own := fun _ => rfl }

/-- **Locks can change as long as the other transactions keep theirs and nobody gives up a page that it
has changed.** -/
theorem PoolInv.keeps_relock (hi : PoolInv origin ch P h) {L : LockTable} (hL : L.Consistent)
    (hmodes : ∀ q s, s ≠ t → L.modeOf q s = P.locks.modeOf q s)
    (hown : ∀ q d, History.own t q h = some d → L.modeOf q t = some .exclusive) :
    Keeps origin t ch P h (P.withLocks L) h where
  pool :=
    { sound := hi.sound
      locks := hL
      stored := hi.stored
      cached := fun q g hg => by
        obtain ⟨himage, hclean, hdirty⟩ := hi.cached q g hg
        refine ⟨⟨himage.index_lt, himage.id_eq, himage.hasPage, himage.before_eq⟩, hclean,
          ?_⟩
        intro s hs
        obtain ⟨hX, d, hd, hdata⟩ := hdirty s hs
        refine ⟨?_, d, hd, hdata⟩
        by_cases hst : s = t
        · subst hst
          exact hown q d hd
        · exact (hmodes q s hst).trans hX
      owned := hi.owned }
  rely u hu :=
    { modes := fun q => hmodes q u hu
      size := Nat.le_refl _
      frames := fun _ _ _ => rfl
      resident := fun _ _ => .inl rfl
      contents := fun _ _ _ => rfl
      hasPage := fun _ hq => hq
      catalog := fun _ _ hs => hs
      own := fun _ => rfl }

/-! ## Frames of one page -/

/-- What happens to the frames of a page that `t` holds, and to its place in the cache, does not show to
others; if it holds the page exclusively its frames may change. -/
theorem Rely.of_page (hu : u ≠ t) (hheld : (P.locks.modeOf p t).isSome)
    (hs : P'.storage = P.storage) (hl : P'.locks = P.locks) (hn : P.frames.size ≤ P'.frames.size)
    (hpage : ∀ g, g.index < P.frames.size → P'.page g = P.page g ∨
      (P.page g).id = p ∧ P.locks.modeOf p t = some .exclusive)
    (hres : ∀ q, q ≠ p → P'.resident[q]? = P.resident[q]?)
    (hown : ∀ q, History.own u q h' = History.own u q h) : Rely u P P' h h' where
  modes q := by rw [hl]
  size := hn
  frames g hlt hg := by
    rcases hpage g hlt with hsame | ⟨hid, hX⟩
    · exact hsame
    · rw [hid] at hg
      exact absurd (LockTable.eq_of_modeOf_exclusive hX hg) hu
  resident q hX := by
    by_cases hq : q = p
    · subst hq
      exact absurd (LockTable.eq_of_modeOf_exclusive hX hheld).symm hu
    · exact .inl (hres q hq)
  contents q _ _ := by rw [hs]
  hasPage q hq := by rw [hs]; exact hq
  catalog s r hr := by rw [hs]; exact hr
  own := hown

/-- **A page that is read into the cache shows the store.** -/
theorem PoolInv.keeps_readIn (hi : PoolInv origin ch P h) (hheld : (P.locks.modeOf p t).isSome)
    (hp : P.storage.HasPage p) (hres : P.resident[p]? = none) :
    Keeps origin t ch P h
      ((P.addFrame (Page.ofData p (P.storage.contents p))).cache p P.nextFrame) h := by
  have hsize : ((P.addFrame (Page.ofData p (P.storage.contents p))).cache p
      P.nextFrame).frames.size = P.frames.size + 1 := by simp [Pool.addFrame, Pool.cache]
  have hnew : ((P.addFrame (Page.ofData p (P.storage.contents p))).cache p P.nextFrame).page
      P.nextFrame = Page.ofData p (P.storage.contents p) := Pool.page_nextFrame P _
  have hold : ∀ g, g.index < P.frames.size →
      ((P.addFrame (Page.ofData p (P.storage.contents p))).cache p P.nextFrame).page g =
        P.page g := fun g hg => Pool.page_addFrame_of_lt hg _
  refine ⟨⟨hi.sound, hi.locks, hi.stored, ?_, ?_⟩,
    fun u hu => .of_page hu hheld rfl rfl (by omega) (fun g hg => .inl (hold g hg))
      ?_ (fun _ => rfl)⟩
  · intro q g hg
    rw [Pool.resident_cache] at hg
    split at hg
    · rename_i hq
      obtain rfl : P.nextFrame = g := Option.some.inj hg
      subst hq
      refine ⟨⟨?_, by rw [hnew]; rfl, hp, by rw [hnew]; rfl⟩, fun _ _ => by rw [hnew]; rfl,
        ?_⟩
      · rw [hsize]
        exact Nat.lt_succ_self _
      · intro s hs
        rw [hnew] at hs
        cases hs
    · have hc := hi.cached q g hg
      exact hc.congr rfl rfl (hold g hc.image.index_lt) (by omega)
  · intro s q d hd
    obtain ⟨g, hg, hdirty⟩ := hi.owned s q d hd
    have hne : q ≠ p := by
      intro hqp
      rw [hqp, hres] at hg
      cases hg
    exact ⟨g, by rw [Pool.resident_cache, if_neg hne]; exact hg,
      by rw [hold g (hi.cached q g hg).image.index_lt]; exact hdirty⟩
  · intro q hq
    rw [Pool.resident_cache, if_neg hq]
    rfl

/-- **A frame that only `t` can see may be written to before it is installed.** -/
theorem PoolInv.keeps_draft (hi : PoolInv origin ch P h) (hf : Image P p f) (hw : Writable P t p f)
    (d : PageData) (hch : ∀ g, ch g → ch' g) (hfch : ch' f) :
    Keeps origin t ch' P h (P.setPage f ((P.page f).withData d)) h := by
  have hself : (P.setPage f ((P.page f).withData d)).page f = (P.page f).withData d := by
    rw [Pool.page_setPage, if_pos ⟨rfl, hf.index_lt⟩]
  have hother : ∀ g, g ≠ f → (P.setPage f ((P.page f).withData d)).page g = P.page g :=
    fun g hg => Pool.page_setPage_of_ne _ _ hg
  have hsize := Pool.size_setPage P f ((P.page f).withData d)
  refine ⟨⟨hi.sound, hi.locks, hi.stored, ?_, ?_⟩,
    fun u hu => .of_page (p := p) hu hw.held rfl rfl (Nat.le_of_eq hsize.symm) ?_
      (fun _ _ => rfl) (fun _ => rfl)⟩
  · intro q g hg
    have hc := (hi.cached q g hg).mono (hch g)
    by_cases hgf : g = f
    · subst hgf
      refine ⟨⟨?_, by rw [hself]; exact hc.image.id_eq, hc.image.hasPage,
        by rw [hself]; exact hc.image.before_eq⟩, fun _ hn => absurd hfch hn, ?_⟩
      · rw [hsize]
        exact hc.image.index_lt
      · intro s hs
        rw [hself] at hs
        obtain ⟨hX, d', hd', -⟩ := hc.dirty s hs
        exact ⟨hX, d', hd', fun hn => absurd hfch hn⟩
    · exact hc.congr rfl rfl (hother g hgf) (Nat.le_of_eq hsize.symm)
  · intro s q d' hd
    obtain ⟨g, hg, hdirty⟩ := hi.owned s q d' hd
    refine ⟨g, hg, ?_⟩
    by_cases hgf : g = f
    · subst hgf
      rw [hself]
      exact hdirty
    · rw [hother g hgf]
      exact hdirty
  · intro g _
    by_cases hgf : g = f
    · exact .inr ⟨hgf ▸ hf.id_eq, hw.exclusive⟩
    · exact .inl (hother g hgf)

theorem PoolInv.keeps_mark (hi : PoolInv origin ch P h) (hf : Image P p f)
    (hX : P.locks.modeOf p t = some .exclusive) (hres : P.resident[p]? = none)
    (hch : ∀ g, g ≠ f → ch g → ch' g) :
    Keeps origin t ch' P h (P.setPage f ((P.page f).markDirty t)) h := by
  have hother : ∀ g, g ≠ f → (P.setPage f ((P.page f).markDirty t)).page g = P.page g :=
    fun g hg => Pool.page_setPage_of_ne _ _ hg
  have hsize := Pool.size_setPage P f ((P.page f).markDirty t)
  have hne : ∀ (q : PageId) (g : FrameId), P.resident[q]? = some g → g ≠ f := by
    intro q g hg hgf
    subst hgf
    have hq : q = p := (hi.cached q g hg).image.id_eq.symm.trans hf.id_eq
    rw [hq, hres] at hg
    cases hg
  refine ⟨⟨hi.sound, hi.locks, hi.stored, ?_, ?_⟩,
    fun u hu => .of_page (p := p) hu (by rw [hX]; rfl) rfl rfl (Nat.le_of_eq hsize.symm)
      ?_ (fun _ _ => rfl) (fun _ => rfl)⟩
  · intro q g hg
    exact ((hi.cached q g hg).mono (hch g (hne q g hg))).congr rfl rfl (hother g (hne q g hg))
      (Nat.le_of_eq hsize.symm)
  · intro s q d hd
    obtain ⟨g, hg, hdirty⟩ := hi.owned s q d hd
    exact ⟨g, hg, by rw [hother g (hne q g hg)]; exact hdirty⟩
  · intro g _
    by_cases hgf : g = f
    · exact .inr ⟨hgf ▸ hf.id_eq, hX⟩
    · exact .inl (hother g hgf)

/-- **A change of `t` takes effect when its marked frame is the cached one of the page.** -/
theorem PoolInv.keeps_change (hi : PoolInv origin ch P h) (hf : Image P p f)
    (hX : P.locks.modeOf p t = some .exclusive)
    (hs : P'.storage = P.storage) (hl : P'.locks = P.locks) (hn : P'.frames.size = P.frames.size)
    (hres : ∀ q : PageId, P'.resident[q]? = if q = p then some f else P.resident[q]?)
    (hself : (P'.page f).id = p ∧ (P'.page f).beforeImage = (P.page f).beforeImage ∧
      (P'.page f).dirty = some t)
    (hother : ∀ g, g ≠ f → P'.page g = P.page g)
    (hown : ∀ s q, History.own s q h' =
      if t = s ∧ p = q then some (P'.page f).data else History.own s q h)
    (hcom : ∀ q, History.committed origin q h' = History.committed origin q h)
    (hch : ∀ g, g ≠ f → ch g → ch' g) : Keeps origin t ch' P h P' h' := by
  have hsole : ∀ s, s ≠ t → History.own s p h = none :=
    fun s hst => hi.own_none_of_held (by rw [hX]; rfl) hst
  have hne : ∀ (q : PageId) (g : FrameId), q ≠ p → P.resident[q]? = some g → g ≠ f := by
    intro q g hq hg hgf
    subst hgf
    exact hq ((hi.cached q g hg).image.id_eq.symm.trans hf.id_eq)
  refine ⟨⟨by rw [hs]; exact hi.sound, by rw [hl]; exact hi.locks,
    fun q => by rw [hs, hcom]; exact hi.stored q, ?_, ?_⟩,
    fun u hu => .of_page (p := p) hu (by rw [hX]; rfl) hs hl (Nat.le_of_eq hn.symm) ?_
      (fun q hq => by rw [hres, if_neg hq]) ?_⟩
  · intro q g hg
    rw [hres] at hg
    by_cases hq : q = p
    · rw [if_pos hq, Option.some.injEq] at hg
      subst hg
      subst hq
      refine ⟨⟨hn ▸ hf.index_lt, hself.1, by rw [hs]; exact hf.hasPage,
        by rw [hself.2.1, hs, hf.before_eq]⟩, ?_, ?_⟩
      · intro hc
        rw [hself.2.2] at hc
        cases hc
      · intro s hsd
        rw [hself.2.2, Option.some.injEq] at hsd
        subst hsd
        refine ⟨by rw [hl, hX], (P'.page f).data, ?_, fun _ => rfl⟩
        rw [hown, if_pos ⟨rfl, rfl⟩]
    · rw [if_neg hq] at hg
      have hgf := hne q g hq hg
      have hc := ((hi.cached q g hg).mono (hch g hgf)).congr hs hl (hother g hgf)
        (Nat.le_of_eq hn.symm)
      refine ⟨hc.image, hc.clean, ?_⟩
      intro s hsd
      rw [hown, if_neg fun hc => hq hc.2.symm]
      exact hc.dirty s hsd
  · intro s q d hd
    rw [hown] at hd
    by_cases hsq : t = s ∧ p = q
    · exact ⟨f, by rw [hres, if_pos hsq.2.symm], by rw [hself.2.2, hsq.1]⟩
    · rw [if_neg hsq] at hd
      have hq : q ≠ p := by
        intro hqp
        have hnone := hsole s fun hst => hsq ⟨hst.symm, hqp.symm⟩
        rw [hqp, hnone] at hd
        cases hd
      obtain ⟨g, hg, hdirty⟩ := hi.owned s q d hd
      exact ⟨g, by rw [hres, if_neg hq]; exact hg, by rw [hother g (hne q g hq hg)]; exact hdirty⟩
  · intro g _
    by_cases hgf : g = f
    · exact .inr ⟨hgf ▸ hf.id_eq, hX⟩
    · exact .inl (hother g hgf)
  · intro q
    rw [hown, if_neg fun hc => hu hc.1.symm]

/-- **A change of the cached frame is the change of its page.** -/
theorem PoolInv.keeps_overwrite (hi : PoolInv origin ch P h)
    (hX : P.locks.modeOf p t = some .exclusive) (hres : P.resident[p]? = some f) (rule : Rule)
    (d : PageData) :
    Keeps origin t ch P h (P.setPage f (((P.page f).withData d).markDirty t))
      (.edited t p rule d :: h) := by
  have himage := (hi.cached p f hres).image
  have hself : (P.setPage f (((P.page f).withData d).markDirty t)).page f =
      ((P.page f).withData d).markDirty t := by
    rw [Pool.page_setPage, if_pos ⟨rfl, himage.index_lt⟩]
  refine hi.keeps_change himage hX rfl rfl (Pool.size_setPage P f _) ?_
    ⟨by rw [hself]; exact himage.id_eq, by rw [hself]; rfl, by rw [hself]; rfl⟩
    (fun g hg => Pool.page_setPage_of_ne _ _ hg) ?_
    (fun _ => rfl) (fun _ _ => id)
  · intro q
    show P.resident[q]? = _
    split
    · rename_i hq
      rw [hq, hres]
    · rfl
  · intro s q
    rw [hself]
    rfl

end Keeping

end PageEngine
