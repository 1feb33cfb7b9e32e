import PageEngine.Proofs.Pool.Completion

/-!
# `Proofs/Pool/Faults.lean` — the cache over files that may fail

Nothing is assumed of the files here: any call on them may fail, and they may hold anything. What then
remains true of the cache is said by `Pool.Tidied`:

> **writing pages out cleans cached frames and changes no data**, however far it comes; a commit that
> succeeds has cleaned and captured every cached frame that its transaction holds.

A commit that finds none of them dirty asks nothing of the storage, whichever it is
(`flushHeld_of_clean`).
-/

set_option autoImplicit false

namespace PageEngine

open Std

/-! ## Stores -/

namespace Tables

/-- Every registered store is a heap file. -/
def HeapsOnly (d : Tables) : Prop :=
  ∀ (t : TableId) (s : Store), d.catalog[t]? = some s → ∃ h, s = .heap h

theorem HeapsOnly.congr {d d' : Tables} (h : d.HeapsOnly) (hc : d'.catalog = d.catalog) :
    d'.HeapsOnly := fun t s hs => h t s (hc ▸ hs)

theorem HeapsOnly.register {d : Tables} (h : d.HeapsOnly) (file : HeapFile) :
    (d.register (.heap file)).HeapsOnly := by
  intro t s hs
  rw [catalog_register] at hs
  split at hs
  · exact ⟨file, (Option.some.inj hs).symm⟩
  · exact h t s hs

theorem Sound.heapsOnly {d : Tables} (hd : d.Sound) : d.HeapsOnly := by
  intro t s hs
  obtain ⟨h, rfl, -⟩ := hd.heap t s hs
  exact ⟨h, rfl⟩

theorem HeapsOnly.heap_of_store {d : Tables} (h : d.HeapsOnly) {t : TableId} {s : Store}
    (hs : d.store t = .ok s) : ∃ x, s = .heap x := by
  unfold store at hs
  split at hs
  · rename_i r hr
    obtain rfl := Except.ok.inj hs
    exact h t r hr
  · cases hs

/-- Whatever is read as a page is a clean image of it. -/
theorem readPage_ofData {d : Tables} {p : PageId} {x : Page} (h : d.readPage p = .ok x) :
    ∃ data, x = Page.ofData p data := by
  unfold readPage HeapFile.readPage Page.ofBytes at h
  repeat' split at h
  all_goals cases h
  exact ⟨_, rfl⟩

theorem catalog_writePage (d : Tables) (x : Page) : (d.writePage x).1.catalog = d.catalog := by
  unfold writePage
  split <;> rfl

theorem catalog_syncTable (d : Tables) (t : TableId) : (d.syncTable t).1.catalog = d.catalog := by
  unfold syncTable
  split <;> rfl

end Tables

namespace Page

/-- The page as a successful commit leaves it: clean, with its contents as before-image. -/
def saved (x : Page) : Page := x.markClean.capture

@[simp] theorem saved_saved (x : Page) : x.saved.saved = x.saved := rfl
@[simp] theorem markClean_markClean (x : Page) : x.markClean.markClean = x.markClean := rfl
@[simp] theorem saved_id (x : Page) : x.saved.id = x.id := rfl
@[simp] theorem saved_data (x : Page) : x.saved.data = x.data := rfl
@[simp] theorem saved_dirty (x : Page) : x.saved.dirty = none := rfl
@[simp] theorem saved_beforeImage (x : Page) : x.saved.beforeImage = x.data := rfl
@[simp] theorem markClean_id (x : Page) : x.markClean.id = x.id := rfl
@[simp] theorem markClean_data (x : Page) : x.markClean.data = x.data := rfl
@[simp] theorem markClean_dirty (x : Page) : x.markClean.dirty = none := rfl
@[simp] theorem markClean_beforeImage (x : Page) : x.markClean.beforeImage = x.beforeImage := rfl

end Page

namespace Pool

/-! ## Writing pages out -/

/-- `P'` is `P` with some frames changed by `φ`, and perhaps other files below the same stores. -/
structure Tidied (P P' : Pool Tables) (φ : Page → Page) : Prop where
  locks : P'.locks = P.locks
  resident : P'.resident = P.resident
  size : P'.frames.size = P.frames.size
  catalog : P'.storage.catalog = P.storage.catalog
  frames : ∀ f, P'.page f = P.page f ∨ P'.page f = φ (P.page f)

section Tidying

variable {P Q R : Pool Tables} {φ : Page → Page}

theorem Tidied.refl (P : Pool Tables) (φ : Page → Page) : Tidied P P φ :=
  ⟨rfl, rfl, rfl, rfl, fun _ => .inl rfl⟩

theorem Tidied.trans (h : Tidied P Q φ) (hφ : ∀ x, φ (φ x) = φ x) (h' : Tidied Q R φ) :
    Tidied P R φ where
  locks := h'.locks.trans h.locks
  resident := h'.resident.trans h.resident
  size := h'.size.trans h.size
  catalog := h'.catalog.trans h.catalog
  frames f := by
    rcases h'.frames f with hR | hR <;> rcases h.frames f with hQ | hQ <;> rw [hR, hQ]
    · exact .inl rfl
    · exact .inr rfl
    · exact .inr rfl
    · exact .inr (hφ _)

theorem Tidied.tally (h : Tidied P Q φ) (count : Counters → Counters) : Tidied P (Q.tally count) φ :=
  ⟨h.locks, h.resident, h.size, h.catalog, h.frames⟩

/-- A frame stays tidy once it is. -/
theorem Tidied.keeps (hφ : ∀ x, φ (φ x) = φ x) (h : Tidied Q R φ) {f : FrameId} {x : Page}
    (hf : Q.page f = φ x) : R.page f = φ x := by
  rcases h.frames f with hR | hR
  · rw [hR, hf]
  · rw [hR, hf, hφ]

/-- A clean page is left alone. A dirty one is cleaned, unless the write fails. -/
theorem writeBack_cases (P : Pool Tables) (f : FrameId) :
    ((P.page f).dirty = none ∧ P.writeBack f = (P, .ok false)) ∨
    (∃ u d, (P.page f).dirty = some u ∧ d.catalog = P.storage.catalog ∧
      ((∃ e, P.writeBack f = ({ P with storage := d }, .error e)) ∨
        P.writeBack f = ((({ P with storage := d }).setPage f (P.page f).markClean).tally
          fun c => { c with writebacks := c.writebacks + 1 }, .ok true))) := by
  cases hdirty : (P.page f).dirty with
  | none => exact .inl ⟨rfl, by simp [writeBack, Page.isClean, hdirty]⟩
  | some u =>
    refine .inr ⟨u, (P.storage.writePage (P.page f)).1, rfl, P.storage.catalog_writePage _, ?_⟩
    cases hw : (P.storage.writePage (P.page f)).2 with
    | error e =>
      refine .inl ⟨e, ?_⟩
      simp only [writeBack, Page.isClean, hdirty, Option.isNone_some, Bool.false_eq_true, if_false,
        Storage.writePage, hw]
    | ok v =>
      refine .inr ?_
      simp only [writeBack, Page.isClean, hdirty, Option.isNone_some, Bool.false_eq_true, if_false,
        Storage.writePage, hw]

/-- Replacing a page by a tidy one changes that frame alone; a frame that does not exist is tidy. -/
theorem tidied_setPage (P : Pool Tables) (f : FrameId) (x : Page)
    (hx : x = P.page f ∨ x = φ (P.page f)) : Tidied P (P.setPage f x) φ where
  locks := rfl
  resident := rfl
  size := size_setPage P f x
  catalog := rfl
  frames g := by
    rw [page_setPage]
    split
    · rename_i hg
      rw [hg.1]
      exact hx
    · exact .inl rfl

theorem tidied_storage (P : Pool Tables) {d : Tables} (hd : d.catalog = P.storage.catalog)
    (φ : Page → Page) : Tidied P { P with storage := d } φ :=
  ⟨rfl, rfl, rfl, hd, fun _ => .inl rfl⟩

theorem flushIn_tidied : ∀ (ps : List PageId) (P : Pool Tables),
    Tidied P (P.flushIn ps).1 Page.markClean := by
  intro ps
  induction ps with
  | nil => exact fun P => .refl P _
  | cons p ps ih =>
    intro P
    unfold flushIn
    split
    · exact ih P
    · rename_i f _
      rcases P.writeBack_cases f with ⟨-, hw⟩ | ⟨u, d, -, hd, ⟨e, hw⟩ | hw⟩
      · simp only [hw]
        exact ih P
      · simp only [hw]
        exact tidied_storage P hd _
      · simp only [hw]
        have hclean : Tidied { P with storage := d } _ Page.markClean :=
          tidied_setPage { P with storage := d } f (P.page f).markClean (.inr rfl)
        have hone := (tidied_storage P hd Page.markClean).trans Page.markClean_markClean hclean
        exact (hone.tally _).trans Page.markClean_markClean (ih _)

theorem Tidied.data (h : Tidied P Q φ) (hφ : ∀ x, (φ x).data = x.data) (f : FrameId) :
    (Q.page f).data = (P.page f).data := by
  rcases h.frames f with hsame | hsame <;> rw [hsame]
  exact hφ _

theorem Tidied.filed (hP : P.Filed) (h : Tidied P Q φ) (hφ : ∀ x, (φ x).id = x.id) : Q.Filed := by
  intro p f hf
  rw [h.resident] at hf
  obtain ⟨hlt, hid⟩ := hP p f hf
  refine ⟨h.size ▸ hlt, ?_⟩
  rcases h.frames f with hsame | hsame <;> rw [hsame]
  · exact hid
  · rw [hφ, hid]

/-- What a commit does to one frame saves it, whether or not the page was dirty, unless the write fails. -/
theorem writeBack_saves {f : FrameId} (hlt : f.index < P.frames.size) :
    (∃ d e, d.catalog = P.storage.catalog ∧ P.writeBack f = ({ P with storage := d }, .error e)) ∨
    ∃ W wrote, P.writeBack f = (W, .ok wrote) ∧ Tidied P (W.setPage f (W.page f).capture) Page.saved ∧
      (W.setPage f (W.page f).capture).page f = (P.page f).saved := by
  rcases P.writeBack_cases f with ⟨hclean, hw⟩ | ⟨u, d, -, hd, ⟨e, hw⟩ | hw⟩
  · have hcap : (P.page f).capture = (P.page f).saved := by
      rw [Page.saved, Page.markClean_of_clean hclean]
    refine .inr ⟨P, false, hw, tidied_setPage P f _ (.inr hcap), ?_⟩
    rw [page_setPage, if_pos ⟨rfl, hlt⟩, hcap]
  · exact .inl ⟨d, e, hd, hw⟩
  · generalize hW : ((({ P with storage := d }).setPage f (P.page f).markClean).tally
      fun c => { c with writebacks := c.writebacks + 1 }) = W at hw
    have hpage : ∀ g, W.page g = if g = f then (P.page f).markClean else P.page g := by
      intro g
      rw [← hW]
      refine (page_setPage { P with storage := d } f (P.page f).markClean g).trans ?_
      simp only [hlt, and_true]
      rfl
    have hsize : W.frames.size = P.frames.size := by
      rw [← hW]
      exact size_setPage { P with storage := d } f _
    have hself : (W.page f).capture = (P.page f).saved := by
      rw [hpage, if_pos rfl]
      rfl
    refine .inr ⟨W, true, hw, ⟨by rw [← hW]; rfl, by rw [← hW]; rfl, ?_, by rw [← hW]; exact hd, ?_⟩, ?_⟩
    · rw [size_setPage, hsize]
    · intro g
      rw [page_setPage, hsize, hself]
      by_cases hg : g = f
      · exact .inr (by rw [if_pos ⟨hg, hlt⟩, hg])
      · exact .inl (by rw [if_neg fun hc => hg hc.1, hpage, if_neg hg])
    · rw [page_setPage, hsize, if_pos ⟨rfl, hlt⟩, hself]

/-- **A commit leaves every frame as it was or saves it**; if it comes to the end of its list, every cached
page of the list is saved. -/
theorem flushHeldIn_tidied : ∀ (ps : List PageId) (P : Pool Tables) (written : List TableId), P.Filed →
    Tidied P (P.flushHeldIn written ps).1 Page.saved ∧
    ∀ tables, (P.flushHeldIn written ps).2 = .ok tables → ∀ p ∈ ps, ∀ f, P.resident[p]? = some f →
      (P.flushHeldIn written ps).1.page f = (P.page f).saved := by
  intro ps
  induction ps with
  | nil => exact fun P written _ => ⟨.refl P _, fun tables _ p hp => absurd hp List.not_mem_nil⟩
  | cons p ps ih =>
    intro P written hP
    unfold flushHeldIn
    split
    · rename_i hnone
      obtain ⟨htidy, hall⟩ := ih P written hP
      refine ⟨htidy, fun tables hok q hq f hf => ?_⟩
      rcases List.mem_cons.1 hq with rfl | hmem
      · rw [hnone] at hf
        cases hf
      · exact hall tables hok q hmem f hf
    · rename_i f hf
      rcases writeBack_saves (hP p f hf).1 with ⟨d, e, hd, hw⟩ | ⟨W, wrote, hw, hone, hself⟩
      · simp only [hw]
        exact ⟨tidied_storage P hd _, fun tables hok => by cases hok⟩
      · simp only [hw]
        obtain ⟨htidy, hall⟩ := ih (W.setPage f (W.page f).capture)
          (if wrote && !written.contains p.table then written ++ [p.table] else written)
          (hone.filed hP Page.saved_id)
        refine ⟨hone.trans Page.saved_saved htidy, fun tables hok q hq g hg => ?_⟩
        rcases List.mem_cons.1 hq with rfl | hmem
        · obtain rfl := Option.some.inj (hf.symm.trans hg)
          exact htidy.keeps Page.saved_saved hself
        · rw [hall tables hok q hmem g (hone.resident ▸ hg)]
          rcases hone.frames g with hsame | hsame <;> rw [hsame]
          exact Page.saved_saved _

theorem syncTables_storage : ∀ (ts : List TableId) (P : Pool Tables),
    ∃ d : Tables, d.catalog = P.storage.catalog ∧ (P.syncTables ts).1 = { P with storage := d } := by
  intro ts
  induction ts with
  | nil => exact fun P => ⟨P.storage, rfl, rfl⟩
  | cons t ts ih =>
    intro P
    have hcat := P.storage.catalog_syncTable t
    obtain ⟨d, hd, hsync⟩ := ih { P with storage := (P.storage.syncTable t).1 }
    unfold syncTables
    dsimp only
    split
    · exact ⟨_, hcat, rfl⟩
    · exact ⟨d, hd.trans hcat, hsync⟩

theorem flushHeld_tidied {P : Pool Tables} (hP : P.Filed) (t : TxnId) :
    Tidied P (P.flushHeld t).1 Page.saved ∧
    ((P.flushHeld t).2 = .ok () → ∀ p ∈ P.locks.heldPages t, ∀ f, P.resident[p]? = some f →
      (P.flushHeld t).1.page f = (P.page f).saved) := by
  obtain ⟨htidy, hall⟩ := flushHeldIn_tidied (P.locks.heldPages t) P [] hP
  unfold flushHeld
  split
  · rename_i R e hR
    rw [hR] at htidy
    exact ⟨htidy, fun hok => by cases hok⟩
  · rename_i R tables hR
    rw [hR] at htidy hall
    obtain ⟨d, hd, hsync⟩ := syncTables_storage tables R
    rw [hsync]
    exact ⟨htidy.trans Page.saved_saved (tidied_storage R hd _),
      fun _ p hp f hf => hall tables rfl p hp f hf⟩

end Tidying

/-! ## Any storage -/

section AnyStorage

variable {δ : Type}

/-- The pool over another storage. -/
def withStorage {ε : Type} (P : Pool δ) (s : ε) : Pool ε :=
  { capacity := P.capacity, storage := s, locks := P.locks, frames := P.frames,
    resident := P.resident, draws := P.draws, counters := P.counters }

variable [Storage δ]

/-- Where no cached page of the list is dirty nothing is written. -/
theorem flushHeldIn_of_clean : ∀ (ps : List PageId) (P : Pool δ) (written : List TableId),
    (∀ p ∈ ps, ∀ f, P.resident[p]? = some f → (P.page f).dirty = none) →
    (P.flushHeldIn written ps).2 = .ok written ∧ (P.flushHeldIn written ps).1.storage = P.storage ∧
      (P.flushHeldIn written ps).1.locks = P.locks := by
  intro ps
  induction ps with
  | nil => exact fun P written _ => ⟨rfl, rfl, rfl⟩
  | cons p ps ih =>
    intro P written hclean
    have hrest : ∀ q ∈ ps, ∀ g, P.resident[q]? = some g → (P.page g).dirty = none :=
      fun q hq => hclean q (List.mem_cons_of_mem p hq)
    unfold flushHeldIn
    split
    · exact ih P written hrest
    · rename_i f hf
      have hw : P.writeBack f = (P, .ok false) := by
        simp [writeBack, Page.isClean, hclean p List.mem_cons_self f hf]
      simp only [hw, Bool.false_and, Bool.false_eq_true, if_false]
      refine ih (P.setPage f (P.page f).capture) written fun q hq g hg => ?_
      rw [page_setPage]
      split
      · exact hclean p List.mem_cons_self f hf
      · exact hrest q hq g hg

/-- **A commit that finds no dirty page among those that it holds asks nothing of the storage.** -/
theorem flushHeld_of_clean {P : Pool δ} {t : TxnId}
    (hclean : ∀ p ∈ P.locks.heldPages t, ∀ f, P.resident[p]? = some f → (P.page f).dirty = none) :
    (P.flushHeld t).2 = .ok () ∧ (P.flushHeld t).1.storage = P.storage ∧
      (P.flushHeld t).1.locks = P.locks := by
  obtain ⟨hok, hstore, hlocks⟩ := flushHeldIn_of_clean (P.locks.heldPages t) P [] hclean
  unfold flushHeld
  split
  · rename_i R e hR
    rw [hR] at hok
    cases hok
  · rename_i R tables hR
    rw [hR] at hok hstore hlocks
    obtain rfl : tables = [] := Except.ok.inj hok
    exact ⟨rfl, hstore, hlocks⟩

/-- The whole end of the transaction is then one that succeeds and leaves the storage alone. -/
theorem complete_of_clean {P : Pool δ} {t : TxnId} (hl : P.locks.Consistent)
    (hclean : ∀ p ∈ P.locks.heldPages t, ∀ f, P.resident[p]? = some f → (P.page f).dirty = none) :
    (P.complete t true).2 = .ok () ∧ (P.complete t true).1.storage = P.storage := by
  obtain ⟨hok, hstore, hlocks⟩ := flushHeld_of_clean hclean
  have hreleased : ((P.settlePages t true).1.releaseAll t).2 = .ok () := by
    show ((P.flushHeld t).1.locks.releaseAll t).2 = .ok ()
    rw [hlocks]
    exact (LockTable.releaseAll_spec hl t).1
  refine ⟨?_, hstore⟩
  show bothOk (P.flushHeld t).2 ((P.settlePages t true).1.releaseAll t).2 = .ok ()
  rw [hok, hreleased]
  rfl

/-- A frame that is cached for none of the listed pages is left alone. -/
theorem page_flushHeldIn : ∀ (ps : List PageId) (P : Pool δ) (written : List TableId) (g : FrameId),
    (∀ p ∈ ps, P.resident[p]? ≠ some g) → (P.flushHeldIn written ps).1.page g = P.page g := by
  intro ps
  induction ps with
  | nil => exact fun P written g _ => rfl
  | cons p ps ih =>
    intro P written g hg
    have hrest : ∀ q ∈ ps, P.resident[q]? ≠ some g := fun q hq => hg q (List.mem_cons_of_mem p hq)
    unfold flushHeldIn
    split
    · exact ih P written g hrest
    · rename_i f hf
      have hgf : g ≠ f := fun he => hg p List.mem_cons_self (he ▸ hf)
      have hres := P.resident_writeBack f
      have hpage : (P.writeBack f).1.page g = P.page g := by
        unfold writeBack
        dsimp only
        split
        · rfl
        · split
          · rfl
          · exact (page_setPage _ f _ g).trans (if_neg fun hc => hgf hc.1)
      rcases hw : P.writeBack f with ⟨W, r⟩
      rw [hw] at hres hpage
      cases r with
      | error e => exact hpage
      | ok wrote =>
        dsimp only
        rw [ih]
        · rw [page_setPage_of_ne _ _ hgf]
          exact hpage
        · intro q hq
          show W.resident[q]? ≠ some g
          rw [hres]
          exact hrest q hq

/-- A commit leaves the frames alone whose pages the transaction does not hold. -/
theorem page_flushHeld {P : Pool Tables} {t : TxnId} {g : FrameId}
    (hg : ∀ p ∈ P.locks.heldPages t, P.resident[p]? ≠ some g) : (P.flushHeld t).1.page g = P.page g := by
  have hpage := page_flushHeldIn (P.locks.heldPages t) P [] g hg
  unfold flushHeld
  split
  · rename_i R e hR
    rw [hR] at hpage
    exact hpage
  · rename_i R tables hR
    rw [hR] at hpage
    obtain ⟨d, -, hsync⟩ := syncTables_storage tables R
    rw [hsync]
    exact hpage

/-- A commit fails if the one cached page is held and dirty and the write of it fails. -/
theorem flushHeld_of_failing {P : Pool δ} {t : TxnId} {p : PageId} {f : FrameId} {s : δ} {e : Error}
    (hf : P.resident[p]? = some f) (honly : ∀ (q : PageId) (g : FrameId), P.resident[q]? = some g → q = p)
    (hdirty : (P.page f).dirty ≠ none) (hheld : p ∈ P.locks.heldPages t)
    (hw : Storage.writePage P.storage (P.page f) = (s, .error e)) :
    P.flushHeld t = ({ P with storage := s }, .error e) := by
  have hback : P.writeBack f = ({ P with storage := s }, .error e) := by
    have hclean : (P.page f).isClean = false := by
      rw [Page.isClean, Option.isNone_eq_false_iff, Option.isSome_iff_ne_none]
      exact hdirty
    simp only [writeBack, hclean, Bool.false_eq_true, if_false, hw]
  have hin : ∀ ps : List PageId, p ∈ ps → P.flushHeldIn [] ps = ({ P with storage := s }, .error e) := by
    intro ps
    induction ps with
    | nil => exact fun hp => absurd hp List.not_mem_nil
    | cons q qs ih =>
      intro hp
      by_cases hq : q = p
      · subst hq
        simp only [flushHeldIn, hf, hback]
      · have hnone : P.resident[q]? = none := by
          cases hg : P.resident[q]? with
          | none => rfl
          | some g => exact absurd (honly q g hg) hq
        simp only [flushHeldIn, hnone]
        exact ih ((List.mem_cons.1 hp).resolve_left fun h => hq h.symm)
  simp only [flushHeld, hin _ hheld]

end AnyStorage

end Pool

end PageEngine
