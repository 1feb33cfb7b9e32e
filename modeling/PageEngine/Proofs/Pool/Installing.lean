import PageEngine.Proofs.Pool.Fetching

/-!
# `Proofs/Pool/Installing.lean` — the images that a store hands in

A store hands in a list of images that it has changed, and the pool marks and caches them one after another.
Nothing is assumed of the list: pages come up more than once, images are cached already or not, and there may
be more of them than the cache has places. What keeps the first ones in the cache while the later ones come in
is their mark:

> **an image is marked before room is made for the next one, and making room drops clean pages only.**

So the list is worked off as far as there is room. `Pool.Installed` describes the part that is done, and is
composed along the list.
-/

set_option autoImplicit false

namespace PageEngine

open Std

namespace Pool

section Installing

variable {δ : Type} {P P₀ Q R : Pool δ} {t : TxnId}

/-- `g` is the last image of the page in the list. -/
def LastOf (P : Pool δ) (p : PageId) (fs : List FrameId) (g : FrameId) : Prop :=
  ∃ as bs, fs = as ++ g :: bs ∧ (P.page g).id = p ∧ ∀ b ∈ bs, (P.page b).id ≠ p

/-- `P'` is `P` with the listed images marked for `t`, and with the images in `fs` cached. -/
structure Installed (t : TxnId) (marked fs : List FrameId) (P P' : Pool δ) : Prop where
  /-- The marked images are dirtied by `t`, and nothing else about the images is changed. -/
  page : ∀ g, P'.page g = if g ∈ marked then (P.page g).markDirty t else P.page g
  size : P'.frames.size = P.frames.size
  /-- Of each page in the list the last image is the cached one. -/
  last : ∀ p, (∃ f ∈ fs, (P.page f).id = p) → ∃ g, P.LastOf p fs g ∧ P'.resident[p]? = some g
  /-- The other dirty pages stay in the cache, with the image that they had, -/
  kept : ∀ p g, (∀ f ∈ fs, (P.page f).id ≠ p) → P.resident[p]? = some g → (P.page g).dirty ≠ none →
    P'.resident[p]? = some g
  /-- and no other page comes in. -/
  entered : ∀ p g, (∀ f ∈ fs, (P.page f).id ≠ p) → P'.resident[p]? = some g → P.resident[p]? = some g
  storage : P'.storage = P.storage
  locks : P'.locks = P.locks

/-! ## One image -/

theorem dirty_markDirty {x : Page} (h : x.dirty ≠ none) (b : Prop) [Decidable b] :
    (if b then x.markDirty t else x).dirty ≠ none := by
  split
  · simp
  · exact h

theorem Installed.id {marked fs : List FrameId} (h : Installed t marked fs P Q) (g : FrameId) :
    (Q.page g).id = (P.page g).id := by
  rw [h.page]
  split <;> rfl

theorem Installed.dirty {marked fs : List FrameId} (h : Installed t marked fs P Q) {g : FrameId}
    (hg : (P.page g).dirty ≠ none) : (Q.page g).dirty ≠ none := by
  rw [h.page]
  exact dirty_markDirty hg _

/-- An image is marked, and room may have been made. -/
theorem installed_of_shrunk {f : FrameId} (hf : f.index < P.frames.size)
    (h : Shrunk (P.setPage f ((P.page f).markDirty t)) R) : Installed t [f] [] P R where
  page g := by
    rw [page_congr h.frames, page_setPage]
    by_cases hg : g = f
    · rw [if_pos ⟨hg, hf⟩, if_pos (List.mem_singleton.2 hg), hg]
    · rw [if_neg fun hc => hg hc.1, if_neg fun hc => hg (List.mem_singleton.1 hc)]
  size := (congrArg Array.size h.frames).trans (P.size_setPage f _)
  last p hp := by
    obtain ⟨g, hg, -⟩ := hp
    exact absurd hg List.not_mem_nil
  kept p g _ hg hdirty := by
    have hmarked : ((P.setPage f ((P.page f).markDirty t)).page g).dirty ≠ none := by
      rw [page_setPage]
      split
      · simp
      · exact hdirty
    obtain ⟨u, hu⟩ := Option.ne_none_iff_exists'.1 hmarked
    exact h.resident_of_dirty hg hu
  entered p g _ hg := h.resident_of_some hg
  storage := h.storage
  locks := h.locks

/-- A marked image becomes the cached one of its page. -/
theorem Installed.cache {f : FrameId} (h : Installed t [f] [] P R)
    (hcached : Q.resident[(P.page f).id]? = some f)
    (hothers : ∀ p, p ≠ (P.page f).id → Q.resident[p]? = R.resident[p]?)
    (hframes : Q.frames = R.frames) (hstorage : Q.storage = R.storage) (hlocks : Q.locks = R.locks) :
    Installed t [f] [f] P Q where
  page g := (page_congr hframes g).trans (h.page g)
  size := (congrArg Array.size hframes).trans h.size
  last p hp := by
    obtain ⟨g, hg, rfl⟩ := hp
    obtain rfl := List.mem_singleton.1 hg
    exact ⟨g, ⟨[], [], rfl, rfl, fun b hb => absurd hb List.not_mem_nil⟩, hcached⟩
  kept p g hp hg hdirty := by
    rw [hothers p (Ne.symm (hp f (List.mem_singleton.2 rfl)))]
    exact h.kept p g (fun b hb => absurd hb List.not_mem_nil) hg hdirty
  entered p g hp hg := by
    rw [hothers p (Ne.symm (hp f (List.mem_singleton.2 rfl)))] at hg
    exact h.entered p g (fun b hb => absurd hb List.not_mem_nil) hg
  storage := hstorage.trans h.storage
  locks := hlocks.trans h.locks

theorem Installed.cached {f : FrameId} (h : Installed t [f] [] P R) :
    Installed t [f] [f] P (R.cache (P.page f).id f) :=
  h.cache (by rw [resident_cache, if_pos rfl]) (fun p hp => by rw [resident_cache, if_neg hp]) rfl rfl rfl

variable [Storage δ]

/-- **One image is installed, or every place is taken by a dirty page** and its page is not cached. -/
theorem install_outcome (hP : P.Fits) (t : TxnId) {f : FrameId} (hf : f.index < P.frames.size) :
    (∃ Q, P.install t f = (Q, .ok ()) ∧ Installed t [f] [f] P Q) ∨
    (∃ Q, P.install t f = (Q, .error .everyPageDirty) ∧ Q.Clogged ∧
      Q.resident[(P.page f).id]? = none ∧ Installed t [f] [] P Q) := by
  have hmark : Installed t [f] [] P (P.setPage f ((P.page f).markDirty t)) :=
    installed_of_shrunk hf (.refl _)
  cases hr : P.resident[(P.page f).id]? with
  | some g =>
    by_cases hg : g = f
    · subst hg
      exact .inl ⟨_, install_of_resident hr t, hmark.cache hr (fun _ _ => rfl) rfl rfl rfl⟩
    · exact .inl ⟨_, install_of_other hr hg t, hmark.cached⟩
  | none =>
    have hinstall := install_of_none hr t
    generalize hM : P.setPage f ((P.page f).markDirty t) = M at hinstall
    have hfits : M.Fits := hM ▸ ⟨hP.capacity, hP.size⟩
    have hshrunk : Installed t [f] [] P M.makeRoom.1 :=
      installed_of_shrunk hf (hM ▸ M.shrunk_makeRoom)
    rw [takeIn] at hinstall
    rcases makeRoom_cases hfits.capacity hfits.size with ⟨-, hmake⟩ | ⟨q, -, hmake⟩ | ⟨hclog, hmake⟩
    all_goals rw [hmake] at hinstall hshrunk
    · exact .inl ⟨_, hinstall, hshrunk.cached⟩
    · exact .inl ⟨_, hinstall, hshrunk.cached⟩
    · refine .inr ⟨_, hinstall, ⟨hclog.full, hclog.dirty⟩, ?_, hshrunk⟩
      show M.resident[(P.page f).id]? = none
      rw [← hM]
      exact hr

/-! ## The list -/

omit [Storage δ] in
theorem LastOf.cons {p : PageId} {fs : List FrameId} {g : FrameId} (hids : ∀ g, (Q.page g).id = (P.page g).id)
    (h : Q.LastOf p fs g) (f : FrameId) : P.LastOf p (f :: fs) g := by
  obtain ⟨as, bs, rfl, hg, hbs⟩ := h
  exact ⟨f :: as, bs, rfl, (hids g).symm.trans hg, fun b hb => hids b ▸ hbs b hb⟩

omit [Storage δ] in
/-- One image is installed and then others are. -/
theorem Installed.cons {f : FrameId} {marked fs : List FrameId} (h : Installed t [f] [f] P Q)
    (h' : Installed t marked fs Q R) : Installed t (f :: marked) (f :: fs) P R where
  page g := by
    rw [h'.page, h.page]
    by_cases hg : g ∈ marked
    · rw [if_pos hg, if_pos (List.mem_cons_of_mem f hg)]
      split <;> rfl
    · by_cases hgf : g = f
      · rw [if_neg hg, if_pos (List.mem_singleton.2 hgf), if_pos (List.mem_cons.2 (.inl hgf))]
      · rw [if_neg hg, if_neg fun hc => hgf (List.mem_singleton.1 hc),
          if_neg fun hc => (List.mem_cons.1 hc).elim hgf hg]
  size := h'.size.trans h.size
  last p hp := by
    by_cases hrest : ∃ g ∈ fs, (Q.page g).id = p
    · obtain ⟨g, hlast, hg⟩ := h'.last p hrest
      exact ⟨g, hlast.cons h.id f, hg⟩
    · -- The page comes up no more, so its image has to outlast the others. It is marked by now.
      have hnot : ∀ g ∈ fs, (P.page g).id ≠ p := fun g hg hid => hrest ⟨g, hg, (h.id g).trans hid⟩
      obtain ⟨g, hg, hid⟩ := hp
      obtain rfl : g = f := by
        rcases List.mem_cons.1 hg with heq | hmem
        · exact heq
        · exact absurd hid (hnot g hmem)
      obtain ⟨b, ⟨as, bs, hsplit, -, -⟩, hb⟩ := h.last p ⟨g, List.mem_singleton.2 rfl, hid⟩
      have hbg : b ∈ [g] := hsplit ▸ List.mem_append_right as List.mem_cons_self
      obtain rfl := List.mem_singleton.1 hbg
      have hdirty : (Q.page b).dirty ≠ none := by
        rw [h.page, if_pos (List.mem_singleton.2 rfl)]
        simp
      exact ⟨b, ⟨[], fs, rfl, hid, hnot⟩,
        h'.kept p b (fun g hg hgid => hrest ⟨g, hg, hgid⟩) hb hdirty⟩
  kept p g hp hg hdirty := by
    have hone := h.kept p g (fun b hb => hp b (List.mem_singleton.1 hb ▸ List.mem_cons_self)) hg hdirty
    exact h'.kept p g (fun b hb => h.id b ▸ hp b (List.mem_cons_of_mem f hb)) hone (h.dirty hdirty)
  entered p g hp hg := by
    have hrest := h'.entered p g (fun b hb => h.id b ▸ hp b (List.mem_cons_of_mem f hb)) hg
    exact h.entered p g (fun b hb => hp b (List.mem_singleton.1 hb ▸ List.mem_cons_self)) hrest
  storage := h'.storage.trans h.storage
  locks := h'.locks.trans h.locks

omit [Storage δ] in
theorem installed_nil (t : TxnId) (P : Pool δ) : Installed t [] [] P P where
  page g := (if_neg List.not_mem_nil).symm
  size := rfl
  last p hp := by
    obtain ⟨f, hf, -⟩ := hp
    exact absurd hf List.not_mem_nil
  kept _ _ _ hg _ := hg
  entered _ _ _ hg := hg
  storage := rfl
  locks := rfl

/-- What installing a list of images for `t` does, exactly. -/
structure InstallsExactly (P : Pool δ) (t : TxnId) (fs : List FrameId) : Prop where
  /-- If it succeeds, the whole list is installed. -/
  ok : (P.installAll t fs).2 = .ok () → Installed t fs fs P (P.installAll t fs).1
  /-- It fails at an image for which there is no room, because every place is taken by a dirty page. The ones
  before it are installed; it is marked, and its page is not cached; the later ones are not looked at. -/
  failed : ∀ e, (P.installAll t fs).2 = .error e → e = .everyPageDirty ∧ (P.installAll t fs).1.Clogged ∧
    ∃ done f rest, fs = done ++ f :: rest ∧
      Installed t (done ++ [f]) done P (P.installAll t fs).1 ∧
      (P.installAll t fs).1.resident[(P.page f).id]? = none

theorem Fits.installsExactly (t : TxnId) (fs : List FrameId) : ∀ P : Pool δ, P.Fits →
    (∀ f ∈ fs, f.index < P.frames.size) → InstallsExactly P t fs := by
  induction fs with
  | nil => exact fun P _ _ => ⟨fun _ => installed_nil t P, nofun⟩
  | cons f fs ih =>
    intro P hP hfs
    have hf := hfs f List.mem_cons_self
    rcases install_outcome hP t hf with ⟨Q, hinstall, hone⟩ | ⟨Q, hinstall, hclog, hnone, hone⟩
    · have hQ : Q.Fits := by
        have hrun := hP.run (o := .install t f) hf
        rwa [CacheOp.run, hinstall] at hrun
      have hrest := ih Q hQ fun g hg => hone.size ▸ hfs g (List.mem_cons_of_mem f hg)
      have hall : P.installAll t (f :: fs) = Q.installAll t fs := by rw [installAll, hinstall]
      refine ⟨fun hok => ?_, fun e he => ?_⟩
      · rw [hall] at hok ⊢
        exact hone.cons (hrest.ok hok)
      · rw [hall] at he ⊢
        obtain ⟨rfl, hclog, done, g, rest, rfl, hdone, hnone⟩ := hrest.failed e he
        exact ⟨rfl, hclog, f :: done, g, rest, rfl, hone.cons hdone, hone.id g ▸ hnone⟩
    · have hall : P.installAll t (f :: fs) = (Q, .error .everyPageDirty) := by rw [installAll, hinstall]
      refine ⟨fun hok => ?_, fun e he => ?_⟩
      · rw [hall] at hok
        cases hok
      · rw [hall] at he ⊢
        exact ⟨(Except.error.inj he).symm, hclog, [], f, fs, rfl, hone, hnone⟩

/-- **Installing, exactly**, at every pool to which operations lead, over any storage, for any list of images
that exist. -/
theorem installs_exactly {o : Options} {draws : Draws} {s : δ} (hP₀ : create o.capacity draws s = .ok P₀)
    (hP : P₀.Reaches P) (t : TxnId) {fs : List FrameId} (hfs : ∀ f ∈ fs, f.index < P.frames.size) :
    InstallsExactly P t fs := Fits.installsExactly t fs P (hP.fits (fits_create hP₀)) hfs

end Installing

/-- A store has made images of the two pages of the table. -/
def handedPair : Pool Tables :=
  (CacheOp.make (Page.empty ⟨⟨1⟩, 1⟩)).run ((CacheOp.make (Page.empty ⟨⟨1⟩, 0⟩)).run freshPair)

/-- More pages than there are places, and one of them twice. -/
theorem installs_exactly_pair :
    create 1 (Draws.ofSeed 7) pairPool.storage = .ok freshPair ∧ freshPair.Reaches handedPair ∧
      (∀ f ∈ [⟨0⟩, ⟨0⟩, ⟨1⟩], FrameId.index f < handedPair.frames.size) ∧
      InstallsExactly handedPair ⟨1⟩ [⟨0⟩, ⟨0⟩, ⟨1⟩] :=
  have hreaches : freshPair.Reaches handedPair :=
    (Reaches.refl.step (o := .make (Page.empty ⟨⟨1⟩, 0⟩)) trivial).step
      (o := .make (Page.empty ⟨⟨1⟩, 1⟩)) trivial
  have hexist : ∀ f ∈ [⟨0⟩, ⟨0⟩, ⟨1⟩], FrameId.index f < handedPair.frames.size := by
    simp [handedPair, CacheOp.run, freshPair, addFrame]
  ⟨rfl, hreaches, hexist, installs_exactly (o := { capacity := 1 }) rfl hreaches ⟨1⟩ hexist⟩

end Pool

end PageEngine
