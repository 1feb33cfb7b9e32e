import PageEngine.Pool.Completion
import PageEngine.Proofs.Locking.Modes
import PageEngine.Proofs.Pool.Cache

/-!
# `Proofs/Pool/Completion.lean` — what the end of a transaction does to pages

A commit and an abort go through the pages that the transaction holds and rework the cached frame of
each: a commit cleans and captures it, an abort brings back its before-image if the transaction holds
the page exclusively. `Pool.Reworked` says which frames change and how; no lock changes, and nothing
enters or leaves the cache.

> **a commit writes exactly the dirty cached pages among those held**, and an abort writes nothing.
-/

set_option autoImplicit false

namespace PageEngine

open Std

theorem Page.capture_of_eq {x : Page} (h : x.data = x.beforeImage) : x.capture = x := by
  cases x with
  | mk id data dirty before =>
    cases h
    rfl

namespace Pool

/-- `P'` is `P` with the cached frames of the listed pages reworked by `φ`, and perhaps another
storage. -/
structure Reworked {δ : Type} (P P' : Pool δ) (ps : List PageId) (φ : PageId → Page → Page) :
    Prop where
  locks : P'.locks = P.locks
  resident : P'.resident = P.resident
  size : P'.frames.size = P.frames.size
  listed : ∀ p ∈ ps, ∀ f, P.resident[p]? = some f → P'.page f = φ p (P.page f)
  other : ∀ g, (∀ p ∈ ps, P.resident[p]? ≠ some g) → P'.page g = P.page g

/-- Every cached frame exists and is an image of its page. -/
def Filed {δ : Type} (P : Pool δ) : Prop :=
  ∀ (p : PageId) (f : FrameId), P.resident[p]? = some f → f.index < P.frames.size ∧ (P.page f).id = p

section Rework

variable {δ : Type} {P Q R : Pool δ} {p : PageId} {ps : List PageId} {φ : PageId → Page → Page}

theorem Reworked.refl (P : Pool δ) (φ : PageId → Page → Page) : Reworked P P [] φ :=
  ⟨rfl, rfl, rfl, fun p hp => by simp at hp, fun _ _ => rfl⟩

theorem Filed.eq_of_resident (h : P.Filed) {q : PageId} {f : FrameId}
    (hp : P.resident[p]? = some f) (hq : P.resident[q]? = some f) : q = p :=
  (h q f hq).2.symm.trans (h p f hp).2

theorem Reworked.page_eq (h : Reworked P Q ps φ) (hP : P.Filed) {f : FrameId}
    (hf : P.resident[p]? = some f) :
    Q.page f = if p ∈ ps then φ p (P.page f) else P.page f := by
  split
  · rename_i hp
    exact h.listed p hp f hf
  · rename_i hp
    exact h.other f fun q hq hqf => hp (hP.eq_of_resident hqf hf ▸ hq)

theorem Reworked.page_cases (h : Reworked P Q ps φ) (f : FrameId) :
    Q.page f = P.page f ∨ ∃ p ∈ ps, P.resident[p]? = some f ∧ Q.page f = φ p (P.page f) := by
  by_cases hf : ∃ p ∈ ps, P.resident[p]? = some f
  · obtain ⟨p, hp, hpf⟩ := hf
    exact .inr ⟨p, hp, hpf, h.listed p hp f hpf⟩
  · exact .inl (h.other f fun p hp hpf => hf ⟨p, hp, hpf⟩)

theorem Reworked.id_eq (h : Reworked P Q ps φ) (hφ : ∀ p x, (φ p x).id = x.id) (f : FrameId) :
    (Q.page f).id = (P.page f).id := by
  rcases h.page_cases f with hsame | ⟨p, -, -, hpage⟩
  · rw [hsame]
  · rw [hpage, hφ]

/-- An image is as it was if it is not the cached one of its page, -/
theorem Reworked.page_of_uncached (h : Reworked P Q ps φ) (hP : P.Filed) {f : FrameId}
    (hf : P.resident[(P.page f).id]? ≠ some f) : Q.page f = P.page f :=
  h.other f fun p _ hpf => hf ((hP p f hpf).2.symm ▸ hpf)

/-- or if its page is not listed. -/
theorem Reworked.page_of_unlisted (h : Reworked P Q ps φ) (hP : P.Filed) {f : FrameId}
    (hf : (P.page f).id ∉ ps) : Q.page f = P.page f :=
  h.other f fun p hp hpf => hf ((hP p f hpf).2.symm ▸ hp)

theorem Reworked.filed (h : Reworked P Q ps φ) (hP : P.Filed)
    (hφ : ∀ p x, (φ p x).id = x.id) : Q.Filed := by
  intro q f hq
  rw [h.resident] at hq
  obtain ⟨hlt, hid⟩ := hP q f hq
  refine ⟨h.size ▸ hlt, ?_⟩
  rw [h.page_eq hP hq]
  split
  · rw [hφ, hid]
  · exact hid

/-- Reworking one page and then others is reworking them all. -/
theorem Reworked.cons (hP : P.Filed) (h : Reworked P Q [p] φ) (h' : Reworked Q R ps φ)
    (hp : p ∉ ps) : Reworked P R (p :: ps) φ where
  locks := h'.locks.trans h.locks
  resident := h'.resident.trans h.resident
  size := h'.size.trans h.size
  listed q hq f hf := by
    rcases List.mem_cons.1 hq with rfl | hmem
    · -- The rest of the list does not come back to the frame of `q`.
      rw [h'.other f, h.listed q (List.mem_singleton.2 rfl) f hf]
      intro r hr hrf
      rw [h.resident] at hrf
      exact hp (hP.eq_of_resident hf hrf ▸ hr)
    · have hqp : q ≠ p := fun he => hp (he ▸ hmem)
      rw [h'.listed q hmem f (h.resident ▸ hf), h.other f]
      intro r hr hrf
      rw [List.mem_singleton] at hr
      subst hr
      exact hqp (hP.eq_of_resident hrf hf)
  other g hg := by
    rw [h'.other g, h.other g]
    · intro q hq
      rw [List.mem_singleton] at hq
      exact hg q (hq ▸ List.mem_cons_self)
    · intro q hq
      rw [h.resident]
      exact hg q (List.mem_cons_of_mem p hq)

theorem reworked_of_none (h : P.resident[p]? = none) (φ : PageId → Page → Page) :
    Reworked P P [p] φ where
  locks := rfl
  resident := rfl
  size := rfl
  listed q hq f hf := by
    rw [List.mem_singleton] at hq
    rw [hq, h] at hf
    cases hf
  other _ _ := rfl

/-- Replacing the image of the cached frame reworks its page. -/
theorem reworked_setPage (hP : P.Filed) {f : FrameId} (hf : P.resident[p]? = some f)
    (φ : PageId → Page → Page) : Reworked P (P.setPage f (φ p (P.page f))) [p] φ where
  locks := rfl
  resident := rfl
  size := size_setPage P f _
  listed q hq g hg := by
    rw [List.mem_singleton] at hq
    subst hq
    rw [hf, Option.some.injEq] at hg
    subst hg
    rw [page_setPage, if_pos ⟨rfl, (hP q f hf).1⟩]
  other g hg := by
    have hne : g ≠ f := fun he => hg p (List.mem_singleton.2 rfl) (he ▸ hf)
    rw [page_setPage_of_ne _ _ hne]

end Rework

/-! ## Aborting -/

/-- What an abort of `t` does to the frame of a page that it holds. -/
def aborted {δ : Type} (P : Pool δ) (t : TxnId) (p : PageId) (x : Page) : Page :=
  if P.locks.modeOf p t = some .exclusive then x.restore else x

section Abort

variable {δ : Type}

/-- Restoring a page changes one image at most. -/
theorem restorePage_eq (P : Pool δ) (t : TxnId) (p : PageId) :
    P.restorePage t p = { P with frames := (P.restorePage t p).frames } := by
  unfold restorePage
  split
  · split <;> rfl
  · rfl

/-- Restoring pages changes images and nothing else. -/
theorem restorePages_eq (t : TxnId) (ps : List PageId) : ∀ P : Pool δ,
    ps.foldl (fun P p => P.restorePage t p) P =
      { P with frames := (ps.foldl (fun P p => P.restorePage t p) P).frames } := by
  induction ps with
  | nil => exact fun P => rfl
  | cons p ps ih =>
    intro P
    rw [List.foldl_cons, ih, P.restorePage_eq t p]

theorem size_restorePages (t : TxnId) (ps : List PageId) : ∀ P : Pool δ,
    (ps.foldl (fun P p => P.restorePage t p) P).frames.size = P.frames.size := by
  induction ps with
  | nil => exact fun P => rfl
  | cons p ps ih =>
    intro P
    rw [List.foldl_cons, ih]
    unfold restorePage
    split
    · split
      · exact size_setPage P _ _
      · rfl
    · rfl

theorem page_restore (P : Pool δ) (f g : FrameId) :
    (P.setPage f (P.page f).restore).page g = if g = f then (P.page f).restore else P.page g := by
  rw [page_setPage]
  by_cases hg : g = f
  · by_cases hlt : f.index < P.frames.size
    · rw [if_pos ⟨hg, hlt⟩, if_pos hg]
    · -- An image that does not exist reads as one that is restored already.
      have hnone : P.page f = default := by
        rw [page, Array.getElem?_eq_none (Nat.not_lt.1 hlt)]
        rfl
      rw [if_neg fun h => hlt h.2, if_pos hg, hg, hnone]
      rfl
  · rw [if_neg fun h => hg h.1, if_neg hg]

theorem page_restorePage (P : Pool δ) (t : TxnId) (p : PageId) (f : FrameId) :
    (P.restorePage t p).page f =
      if P.locks.modeOf p t = some .exclusive ∧ P.resident[p]? = some f then (P.page f).restore
      else P.page f := by
  by_cases hX : P.locks.modeOf p t = some .exclusive
  · cases hg : P.resident[p]? with
    | none => simp [restorePage, hg]
    | some g =>
      have hset : P.restorePage t p = P.setPage g (P.page g).restore := by simp [restorePage, hX, hg]
      rw [hset, page_restore]
      by_cases hf : f = g
      · simp [hf, hX]
      · rw [if_neg hf, if_neg fun h => hf (Option.some.inj h.2).symm]
  · simp [restorePage, hX]

/-- The images that are cached for listed pages held exclusively are restored, and no others. Restoring one
again changes nothing, so it does not matter if an image is cached for two pages. -/
theorem page_restorePages (t : TxnId) (f : FrameId) (ps : List PageId) : ∀ P : Pool δ,
    ((∃ p ∈ ps, P.locks.modeOf p t = some .exclusive ∧ P.resident[p]? = some f) →
      (ps.foldl (fun P p => P.restorePage t p) P).page f = (P.page f).restore) ∧
    ((∀ p ∈ ps, P.locks.modeOf p t = some .exclusive → P.resident[p]? ≠ some f) →
      (ps.foldl (fun P p => P.restorePage t p) P).page f = P.page f) := by
  induction ps with
  | nil => exact fun P => ⟨fun ⟨p, hp, _⟩ => absurd hp List.not_mem_nil, fun _ => rfl⟩
  | cons p ps ih =>
    intro P
    have hone := P.page_restorePage t p f
    have hlocks : (P.restorePage t p).locks = P.locks := by rw [restorePage_eq]
    have hresident : (P.restorePage t p).resident = P.resident := by rw [restorePage_eq]
    obtain ⟨hyes, hno⟩ := ih (P.restorePage t p)
    rw [hlocks, hresident] at hyes hno
    rw [List.foldl_cons]
    constructor
    · rintro ⟨q, hq, hX, hf⟩
      by_cases hrest : ∃ q ∈ ps, P.locks.modeOf q t = some .exclusive ∧ P.resident[q]? = some f
      · rw [hyes hrest, hone]
        split <;> rfl
      · have hp : P.locks.modeOf p t = some .exclusive ∧ P.resident[p]? = some f := by
          rcases List.mem_cons.1 hq with rfl | hmem
          · exact ⟨hX, hf⟩
          · exact absurd ⟨q, hmem, hX, hf⟩ hrest
        rw [hno fun q hq hX hf => hrest ⟨q, hq, hX, hf⟩, hone, if_pos hp]
    · intro hnot
      rw [hno fun q hq => hnot q (List.mem_cons_of_mem p hq), hone,
        if_neg fun h => hnot p List.mem_cons_self h.1 h.2]

/-- **An abort brings back the before-image of every cached page that is held exclusively**, and changes
no other frame and nothing in the stores. -/
theorem restoreHeld_spec {P : Pool δ} (hP : P.Filed) (t : TxnId) :
    (P.restoreHeld t).storage = P.storage ∧
    Reworked P (P.restoreHeld t) (P.locks.heldPages t) (P.aborted t) := by
  have heq : P.restoreHeld t = { P with frames := (P.restoreHeld t).frames } := restorePages_eq t _ P
  refine ⟨by rw [heq], by rw [heq], by rw [heq], size_restorePages t _ P, fun p hp f hf => ?_,
    fun f hf => (page_restorePages t f _ P).2 fun p hp _ => hf p hp⟩
  obtain ⟨hyes, hno⟩ := page_restorePages t f (P.locks.heldPages t) P
  unfold aborted
  split
  · rename_i hX
    exact hyes ⟨p, hp, hX, hf⟩
  · rename_i hX
    exact hno fun q _ hqX hqf => hX (hP.eq_of_resident hf hqf ▸ hqX)

end Abort

/-! ## Committing -/

/-- What a commit does to the frame of a page that it holds. -/
def committed (_ : PageId) (x : Page) : Page := x.markClean.capture

/-- The stores after the dirty cached pages of a list were written. -/
structure Written (P : Pool Tables) (d : Tables) (ps : List PageId) : Prop where
  sound : d.Sound
  catalog : d.catalog = P.storage.catalog
  pages : ∀ t, d.pages t = P.storage.pages t
  listed : ∀ p ∈ ps, ∀ f, P.resident[p]? = some f → (P.page f).dirty ≠ none →
    d.contents p = (P.page f).data
  other : ∀ p, (p ∈ ps → ∀ f, P.resident[p]? = some f → (P.page f).dirty = none) →
    d.contents p = P.storage.contents p

/-- Writing a cached page back never fails: it cleans the frame and writes its page if it is dirty. -/
theorem writeBack_spec {P : Pool Tables} (hd : P.storage.Sound) (hP : P.Filed) {p : PageId}
    {f : FrameId} (hf : P.resident[p]? = some f) (hpage : P.storage.HasPage p) :
    ∃ R b, P.writeBack f = (R, .ok b) ∧
      Reworked P R [p] (fun _ x => x.markClean) ∧ Written P R.storage [p] := by
  cases hdirty : (P.page f).dirty with
  | none =>
    refine ⟨P, false, by simp [writeBack, Page.isClean, hdirty], ⟨rfl, rfl, rfl, ?_, fun _ _ => rfl⟩,
      ⟨hd, rfl, fun _ => rfl, ?_, fun _ _ => rfl⟩⟩
    · intro q hq g hg
      rw [List.mem_singleton] at hq
      rw [hq, hf, Option.some.injEq] at hg
      rw [← hg, Page.markClean_of_clean hdirty]
    · intro q hq g hg hne
      rw [List.mem_singleton] at hq
      rw [hq, hf, Option.some.injEq] at hg
      exact absurd (hg ▸ hdirty) hne
  | some t =>
    obtain ⟨hlt, hid⟩ := hP p f hf
    obtain ⟨d, hw, hrw⟩ := Tables.writePage_spec hd (x := P.page f) (by rw [hid]; exact hpage)
    have hwb : P.writeBack f = ((({ P with storage := d }).setPage f (P.page f).markClean).tally
        fun c => { c with writebacks := c.writebacks + 1 }, .ok true) := by
      simp only [writeBack, Page.isClean, hdirty, Option.isNone_some, Bool.false_eq_true, if_false,
        Storage.writePage, hw]
    have hset := reworked_setPage hP hf fun _ x => x.markClean
    refine ⟨_, true, hwb, ⟨rfl, rfl, hset.size, hset.listed, hset.other⟩,
      ⟨hrw.sound, hrw.catalog, ?_, ?_, ?_⟩⟩
    · intro u
      refine (hrw.pages u).trans ?_
      split
      · rename_i hu
        have hno := hpage.1
        rw [hu, hid]
        omega
      · rfl
    · intro q hq g hg _
      rw [List.mem_singleton] at hq
      rw [hq, hf, Option.some.injEq] at hg
      refine (hrw.contents q).trans ?_
      rw [if_pos (hq.trans hid.symm), hg]
    · intro q hq
      refine (hrw.contents q).trans ?_
      rw [if_neg]
      intro hqp
      rw [hid] at hqp
      have hnone := hq (List.mem_singleton.2 hqp) f (hqp ▸ hf)
      rw [hdirty] at hnone
      cases hnone

/-- **A commit writes the dirty cached pages of its list and captures all cached ones**, and never
fails to. -/
theorem flushHeldIn_spec :
    ∀ (ps : List PageId) (P : Pool Tables) (written : List TableId), P.storage.Sound → P.Filed →
      (∀ p f, P.resident[p]? = some f → P.storage.HasPage p) → ps.Nodup →
      ∃ R tables, P.flushHeldIn written ps = (R, .ok tables) ∧
        Reworked P R ps committed ∧ Written P R.storage ps := by
  intro ps
  induction ps with
  | nil =>
    intro P written hd hP hpages _
    exact ⟨P, written, rfl, .refl P _,
      ⟨hd, rfl, fun _ => rfl, fun q hq => by simp at hq, fun _ _ => rfl⟩⟩
  | cons p ps ih =>
    intro P written hd hP hpages hnd
    obtain ⟨hp, hnd'⟩ := List.nodup_cons.1 hnd
    cases hf : P.resident[p]? with
    | none =>
      obtain ⟨R, tables, hR, hre, hwr⟩ := ih P written hd hP hpages hnd'
      refine ⟨R, tables, by simp only [flushHeldIn, hf, hR],
        (reworked_of_none hf committed).cons hP hre hp, ⟨hwr.sound, hwr.catalog, hwr.pages, ?_, ?_⟩⟩
      · intro q hq f hqf hdirty
        rcases List.mem_cons.1 hq with rfl | hmem
        · rw [hf] at hqf
          cases hqf
        · exact hwr.listed q hmem f hqf hdirty
      · exact fun q hq => hwr.other q fun hmem => hq (List.mem_cons_of_mem p hmem)
    | some f =>
      obtain ⟨W, b, hW, hre₁, hwr₁⟩ := writeBack_spec hd hP hf (hpages p f hf)
      have hWf : W.Filed := hre₁.filed hP fun _ _ => rfl
      have hcap := reworked_setPage hWf (hre₁.resident ▸ hf) fun _ x => x.capture
      -- Cleaning the frame and capturing it are one rework.
      have hone : Reworked P (W.setPage f (W.page f).capture) [p] committed := by
        refine ⟨hre₁.locks, hre₁.resident, hcap.size.trans hre₁.size, ?_,
          ?_⟩
        · intro q hq g hg
          rw [hcap.listed q hq g (hre₁.resident ▸ hg), hre₁.listed q hq g hg]
          rfl
        · intro g hg
          rw [hcap.other g (by rw [hre₁.resident]; exact hg), hre₁.other g hg]
      have hstore : (W.setPage f (W.page f).capture).storage = W.storage := rfl
      obtain ⟨R, tables, hR, hre, hwr⟩ := ih (W.setPage f (W.page f).capture)
        (if b && !written.contains p.table then written ++ [p.table] else written) hwr₁.sound
        (hone.filed hP fun _ _ => rfl)
        (fun q g hg => by
          have hq := hpages q g (hone.resident ▸ hg)
          exact ⟨by rw [hstore, hwr₁.pages]; exact hq.1, hq.2⟩) hnd'
      -- The frames of the other pages are still what they were.
      have hkeep : ∀ q ∈ ps, ∀ g, P.resident[q]? = some g →
          (W.setPage f (W.page f).capture).page g = P.page g := by
        intro q hq g hg
        apply hone.other g
        intro r hr hrg
        rw [List.mem_singleton] at hr
        subst hr
        exact hp (hP.eq_of_resident hrg hg ▸ hq)
      refine ⟨R, tables, by simp only [flushHeldIn, hf, hW, hR], hone.cons hP hre hp,
        ⟨hwr.sound, hwr.catalog.trans hwr₁.catalog, fun u => (hwr.pages u).trans (hwr₁.pages u),
          ?_, ?_⟩⟩
      · intro q hq g hg hdirty
        rcases List.mem_cons.1 hq with rfl | hmem
        · rw [hwr.other q fun hmem => absurd hmem hp]
          exact hwr₁.listed q (List.mem_singleton.2 rfl) g hg hdirty
        · have hsame := hkeep q hmem g hg
          rw [hwr.listed q hmem g (hone.resident ▸ hg) (by rw [hsame]; exact hdirty), hsame]
      · intro q hq
        rw [hwr.other q, hstore]
        · apply hwr₁.other q
          intro hmem
          rw [List.mem_singleton] at hmem
          exact hq (hmem ▸ List.mem_cons_self)
        · intro hmem g hg
          rw [hone.resident] at hg
          rw [hkeep q hmem g hg]
          exact hq (List.mem_cons_of_mem p hmem) g hg

theorem syncTables_same :
    ∀ (ts : List TableId) (P : Pool Tables), P.storage.Sound →
      Tables.SameContents P.storage (P.syncTables ts).1.storage ∧
      (P.syncTables ts).1 = { P with storage := (P.syncTables ts).1.storage } := by
  intro ts
  induction ts with
  | nil => exact fun P hd => ⟨⟨hd, rfl, fun _ => rfl⟩, rfl⟩
  | cons t ts ih =>
    intro P hd
    have hsync := Tables.syncTable_same hd t
    obtain ⟨hsame, heq⟩ := ih { P with storage := (P.storage.syncTable t).1 } hsync.sound
    cases hr : (P.storage.syncTable t).2 with
    | error e =>
      have hstop : P.syncTables (t :: ts) =
          ({ P with storage := (P.storage.syncTable t).1 }, .error e) := by
        simp only [syncTables, Storage.syncTable, hr]
      rw [hstop]
      exact ⟨hsync, rfl⟩
    | ok u =>
      have hnext : P.syncTables (t :: ts) =
          Pool.syncTables { P with storage := (P.storage.syncTable t).1 } ts := by
        simp only [syncTables, Storage.syncTable, hr]
      rw [hnext]
      refine ⟨⟨hsame.sound, hsame.catalog.trans hsync.catalog, ?_⟩, heq⟩
      intro u
      exact (hsame.bytesOf u).trans (hsync.bytesOf u)

/-- **A commit writes the dirty cached pages that the transaction holds and captures every cached page
that it holds**; no other frame changes, and no other page in the stores. -/
theorem flushHeld_spec {P : Pool Tables} (hd : P.storage.Sound) (hP : P.Filed)
    (hpages : ∀ p f, P.resident[p]? = some f → P.storage.HasPage p) (t : TxnId) :
    Reworked P (P.flushHeld t).1 (P.locks.heldPages t) committed ∧
    Written P (P.flushHeld t).1.storage (P.locks.heldPages t) := by
  obtain ⟨R, tables, hR, hre, hwr⟩ :=
    flushHeldIn_spec (P.locks.heldPages t) P [] hd hP hpages (P.locks.heldPages_nodup t)
  obtain ⟨hsame, heq⟩ := syncTables_same tables R hwr.sound
  have hflush : P.flushHeld t = R.syncTables tables := by
    simp only [flushHeld, hR]
  rw [hflush]
  refine ⟨?_, ⟨hsame.sound, hsame.catalog.trans hwr.catalog,
    fun u => (hsame.pages u).trans (hwr.pages u),
    fun p hp f hf hdirty => (hsame.contents p).trans (hwr.listed p hp f hf hdirty),
    fun p hp => (hsame.contents p).trans (hwr.other p hp)⟩⟩
  rw [heq]
  exact ⟨hre.locks, hre.resident, hre.size, hre.listed, hre.other⟩

/-! ## No end fails -/

theorem resident_writeBack {δ : Type} [Storage δ] (P : Pool δ) (f : FrameId) :
    (P.writeBack f).1.resident = P.resident := by
  unfold writeBack
  dsimp only
  split
  · rfl
  · split
    · rfl
    · rfl

/-- The tables that are listed for a sync are those of cached pages. -/
theorem flushHeldIn_tables {δ : Type} [Storage δ] :
    ∀ (ps : List PageId) (P : Pool δ) (written : List TableId) {R : Pool δ} {tables : List TableId},
      P.flushHeldIn written ps = (R, .ok tables) →
      ∀ x ∈ tables, x ∈ written ∨ ∃ p ∈ ps, (P.resident[p]?).isSome ∧ p.table = x := by
  intro ps
  induction ps with
  | nil =>
    intro P written R tables h x hx
    obtain ⟨-, rfl⟩ : P = R ∧ written = tables := by simpa [flushHeldIn] using h
    exact .inl hx
  | cons p ps ih =>
    intro P written R tables h x hx
    unfold flushHeldIn at h
    split at h
    · rcases ih P written h x hx with hin | ⟨q, hq, hres, htab⟩
      · exact .inl hin
      · exact .inr ⟨q, List.mem_cons_of_mem p hq, hres, htab⟩
    · rename_i f hf
      split at h
      · cases h
      · rename_i W wrote hW
        have hresident : W.resident = P.resident := by
          rw [← P.resident_writeBack f, hW]
        rcases ih _ _ h x hx with hin | ⟨q, hq, hres, htab⟩
        · split at hin
          · rcases List.mem_append.1 hin with hin | hin
            · exact .inl hin
            · exact .inr ⟨p, List.mem_cons_self, by rw [hf]; rfl, (List.mem_singleton.1 hin).symm⟩
          · exact .inl hin
        · refine .inr ⟨q, List.mem_cons_of_mem p hq, ?_, htab⟩
          rw [← hresident]
          exact hres

theorem syncTables_ok :
    ∀ (ts : List TableId) (P : Pool Tables), P.storage.Sound →
      (∀ t ∈ ts, (P.storage.catalog[t]?).isSome) → (P.syncTables ts).2 = .ok () := by
  intro ts
  induction ts with
  | nil => exact fun P _ _ => rfl
  | cons t ts ih =>
    intro P hd hcat
    obtain ⟨s, hs⟩ := Option.isSome_iff_exists.1 (hcat t List.mem_cons_self)
    have hsync := Tables.syncTable_same hd t
    have hnext : P.syncTables (t :: ts) =
        Pool.syncTables { P with storage := (P.storage.syncTable t).1 } ts := by
      simp only [syncTables, Storage.syncTable, Tables.syncTable_ok hd hs]
    rw [hnext]
    refine ih _ hsync.sound fun u hu => ?_
    show ((P.storage.syncTable t).1.catalog[u]?).isSome
    rw [hsync.catalog]
    exact hcat u (List.mem_cons_of_mem t hu)

/-- A commit writes and syncs without a failure, where no call on a file fails. -/
theorem flushHeld_ok {P : Pool Tables} (hd : P.storage.Sound) (hP : P.Filed)
    (hpages : ∀ p f, P.resident[p]? = some f → P.storage.HasPage p) (t : TxnId) :
    (P.flushHeld t).2 = .ok () := by
  obtain ⟨R, tables, hR, -, hwr⟩ :=
    flushHeldIn_spec (P.locks.heldPages t) P [] hd hP hpages (P.locks.heldPages_nodup t)
  have hflush : P.flushHeld t = R.syncTables tables := by
    simp only [flushHeld, hR]
  rw [hflush]
  refine syncTables_ok tables R hwr.sound fun x hx => ?_
  rcases flushHeldIn_tables _ _ _ hR x hx with hin | ⟨q, -, hres, rfl⟩
  · exact absurd hin List.not_mem_nil
  · obtain ⟨f, hf⟩ := Option.isSome_iff_exists.1 hres
    obtain ⟨h, hs, -⟩ := (hpages q f hf).registered hd
    rw [hwr.catalog, hs]
    rfl

/-- **The end of a transaction does not fail**, where no call on a file does. -/
theorem complete_ok {P : Pool Tables} (hd : P.storage.Sound) (hP : P.Filed)
    (hpages : ∀ p f, P.resident[p]? = some f → P.storage.HasPage p) (hl : P.locks.Consistent)
    (t : TxnId) (commit : Bool) : (P.complete t commit).2 = .ok () := by
  have hsettled : (P.settlePages t commit).2 = .ok () ∧
      (P.settlePages t commit).1.locks = P.locks := by
    cases commit with
    | false => exact ⟨rfl, (restoreHeld_spec hP t).2.locks⟩
    | true => exact ⟨flushHeld_ok hd hP hpages t, (flushHeld_spec hd hP hpages t).1.locks⟩
  have hreleased : ((P.settlePages t commit).1.releaseAll t).2 = .ok () := by
    rw [releaseAll, hsettled.2]
    exact (LockTable.releaseAll_spec hl t).1
  show bothOk (P.settlePages t commit).2 ((P.settlePages t commit).1.releaseAll t).2 = .ok ()
  rw [hsettled.1, hreleased]
  rfl

end Pool

end PageEngine
