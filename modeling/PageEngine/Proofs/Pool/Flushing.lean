import PageEngine.Proofs.Pool.Alike
import PageEngine.Proofs.Pool.Ownership
import PageEngine.Proofs.Storage.Overwriting

/-!
# `Proofs/Pool/Flushing.lean` — writing out the whole cache

The cache is written out in one call, page by page. In which order the pages come is nobody's business, so
nothing may depend on it: here it is any order in which the cached pages come once each, and the call of the
pool (`Pool.flushAll`) goes through them in one of them.

> **each dirty page is written once and cleaned, and nothing else happens to the cache**; if a write fails, the
> pages that were written are clean, the others are as they were, and one of them at least is dirty.

What the call asks of a storage is said over any storage (`FlushesExactly.calls`). What the files then hold is
said where every table has a heap file of its own and the files keep their pages (`CacheOp.InFiles`), whatever
calls on them fail.
-/

set_option autoImplicit false

namespace PageEngine

open Std StorageCall

/-! ## Pages that there are -/

/-- The stores stay heap files, each with a table and a file of its own, no file gets shorter, and stores hand in
images of pages that they have. -/
def CacheOp.InFiles (P : Pool Tables) : CacheOp Tables → Prop
  | install _ f => P.storage.HasPage (P.page f).id
  | restock s => s.Apart ∧ P.storage.NoShorter s
  | _ => True

namespace Pool

/-- The cached pages are pages of heap files, each of which has its table and its file to itself. -/
structure Lodged (P : Pool Tables) : Prop where
  filed : P.Filed
  apart : P.storage.Apart
  within : ∀ (p : PageId) (f : FrameId), P.resident[p]? = some f → P.storage.HasPage p

section Lodged

variable {P Q : Pool Tables} {o : CacheOp Tables}

/-- Where the stores lie changes only if the storage is changed from outside, and no file becomes shorter. -/
theorem storage_inFiles (hP : P.storage.Apart) (ho : o.InFiles P) :
    (o.run P).storage.Apart ∧ P.storage.NoShorter (o.run P).storage := by
  generalize hs : P.storage = s at hP
  have hdisk : ∀ {d d' : Tables}, s.NoShorter d → d'.catalog = d.catalog → d.disk.NoShorter d'.disk →
      s.NoShorter d' :=
    fun h hc hd t => Nat.le_trans (h t) (Tables.noShorter_of_disk hc hd t)
  refine storage_run (motive := fun d => d.Apart ∧ s.NoShorter d) (P := P) (o := o) (fun d p hd => hd) ?_ ?_ ?_ ?_
  · exact fun d x hd => ⟨hd.1.congr (d.catalog_writePage x),
      hdisk hd.2 (d.catalog_writePage x) (d.noShorter_writePage x)⟩
  · exact fun d t hd => ⟨hd.1.congr (d.catalog_syncTable t),
      hdisk hd.2 (d.catalog_syncTable t) (d.noShorter_syncTable t)⟩
  · rintro d rfl
    exact hs ▸ ho
  · rw [hs]
    exact ⟨hP, fun t => Nat.le_refl _⟩

theorem Lodged.run (h : P.Lodged) {n : Nat} (hn : 0 < n) (hb : Bounded n P) (ho : o.Allowed P)
    (hin : o.InFiles P) : (o.run P).Lodged := by
  obtain ⟨hapart, hlonger⟩ := storage_inFiles h.apart hin
  refine ⟨((effect_run readsOwn_tables hn hb ho).bounded hb).filed, hapart, fun p f hf => ?_⟩
  rcases P.cached_run o hf with hold | ⟨t, rfl, hid⟩ | ⟨x, hread⟩
  · exact hlonger.hasPage (h.within p f hold)
  · exact hlonger.hasPage (hid ▸ hin)
  · exact hlonger.hasPage (Tables.readPage_ok hread).2

theorem ReachesBy.lodged {capacity : Nat} {draws : Draws} {d : Tables} (hd : d.Apart)
    (hP : create capacity draws d = .ok P) (h : P.ReachesBy CacheOp.InFiles Q) : Q.Lodged := by
  obtain ⟨hpos, hb⟩ := bounded_create hP
  induction h with
  | refl =>
    obtain ⟨-, rfl⟩ := create_ok hP
    exact ⟨hb.filed, hd, fun p f hf => by simp at hf⟩
  | step hQ ho hin ih => exact ih.run hpos (hQ.reaches.bounded readsOwn_tables hpos hb) ho hin

end Lodged

/-! ## Going through a list of pages -/

section Cleaning

variable {δ : Type} {P Q R : Pool δ} {p : PageId} {ps : List PageId}

/-- The dirty pages of a list come once each, if the pages do. -/
theorem dirtyAmong_apart (hP : P.Filed) (hps : ps.Nodup) :
    (P.dirtyAmong ps).Pairwise fun x y => x.id ≠ y.id := by
  refine List.pairwise_filterMap.2 (hps.imp fun hpq x hx y hy => ?_)
  rwa [id_of_dirtyImage hP hx, id_of_dirtyImage hP hy]

theorem mem_dirtyAmong (hP : P.Filed) {x : Page} :
    x ∈ P.dirtyAmong ps ↔ x.id ∈ ps ∧ P.dirtyImage x.id = some x := by
  rw [dirtyAmong, List.mem_filterMap]
  constructor
  · rintro ⟨p, hp, hx⟩
    obtain rfl := id_of_dirtyImage hP hx
    exact ⟨hp, hx⟩
  · rintro ⟨hp, hx⟩
    exact ⟨x.id, hp, hx⟩

theorem dirtyAmong_perm {qs : List PageId} (h : ps.Perm qs) : (P.dirtyAmong ps).Perm (P.dirtyAmong qs) :=
  h.filterMap P.dirtyImage

variable [Storage δ]

/-- The dirty pages of a list are written to the storage and cleaned. -/
structure Cleaned (P Q : Pool δ) (ps : List PageId) : Prop where
  pages : Reworked P Q ps fun _ x => x.markClean
  calls : serveAll P.storage ((P.dirtyAmong ps).map .write) = (Q.storage, .ok ())
  writebacks : Q.counters.writebacks = P.counters.writebacks + (P.dirtyAmong ps).length

theorem Cleaned.cons (hP : P.Filed) (h : Cleaned P Q [p]) (h' : Cleaned Q R ps) (hp : p ∉ ps) :
    Cleaned P R (p :: ps) := by
  have hsame : Q.dirtyAmong ps = P.dirtyAmong ps :=
    h.pages.dirtyAmong_eq hP fun q hq hqp => hp (List.mem_singleton.1 hqp ▸ hq)
  have hsplit : P.dirtyAmong (p :: ps) = P.dirtyAmong [p] ++ Q.dirtyAmong ps := by
    rw [hsame, ← dirtyAmong_append, List.singleton_append]
  refine ⟨h.pages.cons hP h'.pages hp, ?_, ?_⟩
  · rw [hsplit, List.map_append, serveAll_append h.calls, h'.calls]
  · rw [h'.writebacks, h.writebacks, hsplit, List.length_append, Nat.add_assoc]

theorem cleaned_of_clean (h : P.dirtyImage p = none) : Cleaned P P [p] := by
  have hnone : P.dirtyAmong [p] = [] := by rw [dirtyAmong_cons, h]; rfl
  refine ⟨?_, by rw [hnone]; rfl, by rw [hnone]; rfl⟩
  cases hf : P.resident[p]? with
  | none => exact reworked_of_none hf _
  | some f =>
    have hclean := clean_of_dirtyImage hf h
    refine ⟨rfl, rfl, rfl, fun q hq g hg => ?_, fun _ _ => rfl⟩
    rw [List.mem_singleton.1 hq, hf] at hg
    obtain rfl := Option.some.inj hg
    exact (Page.markClean_of_clean hclean).symm

/-- A cached page is written and cleaned, if it is dirty; or the write fails. -/
theorem writeBack_cleans (hP : P.Filed) {f : FrameId} (hf : P.resident[p]? = some f) :
    (∃ W wrote, P.writeBack f = (W, .ok wrote) ∧ Cleaned P W [p]) ∨
    (∃ x s e, P.dirtyImage p = some x ∧ Storage.writePage P.storage x = (s, .error e) ∧
      P.writeBack f = ({ P with storage := s }, .error e)) := by
  cases hdirty : (P.page f).dirty with
  | none =>
    refine .inl ⟨P, false, ?_, cleaned_of_clean (dirtyImage_of_clean hf hdirty)⟩
    simp [writeBack, Page.isClean, hdirty]
  | some u =>
    have himage : P.dirtyImage p = some (P.page f) := dirtyImage_of_dirty hf (by simp [hdirty])
    have hlist : P.dirtyAmong [p] = [P.page f] := by rw [dirtyAmong_cons, himage]; rfl
    have hclean : (P.page f).isClean = false := by simp [Page.isClean, hdirty]
    rcases hw : Storage.writePage P.storage (P.page f) with ⟨s, e | ⟨⟩⟩
    · exact .inr ⟨_, s, e, himage, hw, by simp only [writeBack, hclean, Bool.false_eq_true, if_false, hw]⟩
    · have hset := reworked_setPage (P := P) hP hf fun _ x => x.markClean
      refine .inl ⟨_, true, by simp only [writeBack, hclean, Bool.false_eq_true, if_false, hw]; rfl, ?_, ?_, ?_⟩
      · exact ⟨hset.locks, hset.resident, hset.size, hset.listed, hset.other⟩
      · rw [hlist]
        simp only [List.map_cons, List.map_nil, serveAll, serve, hw]
        rfl
      · rw [hlist]
        rfl

/-- Where the writing of a list comes to: to its end, or to a page the write of which fails. -/
inductive Flushed (P : Pool δ) (ps : List PageId) : Pool δ → Except Error Unit → Prop
  | finished {Q : Pool δ} : Cleaned P Q ps → Flushed P ps Q (.ok ())
  | failed {Q : Pool δ} {reached rest : List PageId} {p : PageId} {x : Page} {s : δ} {e : Error} :
      ps = reached ++ p :: rest → P.dirtyImage p = some x → Cleaned P Q reached →
      Storage.writePage Q.storage x = (s, .error e) → Flushed P ps { Q with storage := s } (.error e)

theorem Flushed.cons {r : Except Error Unit} (hP : P.Filed) (hp : p ∉ ps) (h : Cleaned P Q [p])
    (h' : Flushed Q ps R r) : Flushed P (p :: ps) R r := by
  cases h' with
  | finished hps => exact .finished (h.cons hP hps hp)
  | @failed W reached rest q x s e hps hx hre hfail =>
    subst hps
    have hq : Q.dirtyImage q = P.dirtyImage q :=
      h.pages.dirtyImage_eq hP fun hqp => hp (List.mem_singleton.1 hqp ▸ by simp)
    exact .failed rfl (hq ▸ hx) (h.cons hP hre fun hmem => hp (List.mem_append_left _ hmem)) hfail

/-- **The dirty pages of a list are written and cleaned one after another**, up to the end of the list or up to a
page the write of which fails. -/
theorem flushIn_flushed : ∀ (ps : List PageId) (P : Pool δ), P.Filed → ps.Nodup →
    Flushed P ps (P.flushIn ps).1 (P.flushIn ps).2 := by
  intro ps
  induction ps with
  | nil => exact fun P _ _ => .finished ⟨.refl P _, rfl, rfl⟩
  | cons p ps ih =>
    intro P hP hnd
    obtain ⟨hp, hnd'⟩ := List.nodup_cons.1 hnd
    unfold flushIn
    split
    · rename_i hnone
      exact (ih P hP hnd').cons hP hp (cleaned_of_clean (dirtyImage_of_none hnone))
    · rename_i f hf
      rcases writeBack_cleans hP hf with ⟨W, wrote, hW, hone⟩ | ⟨x, s, e, hx, hfail, hW⟩
      · simp only [hW]
        exact (ih W (hone.pages.filed hP fun _ _ => rfl) hnd').cons hP hp hone
      · simp only [hW]
        exact .failed (List.nil_append _).symm hx ⟨.refl P _, rfl, rfl⟩ hfail

/-- The calls that a list is written with. -/
theorem Flushed.calls {r : Except Error Unit} (h : Flushed P ps Q r) :
    serveAll P.storage ((P.dirtyAmong ps).map .write) = (Q.storage, r) := by
  cases h with
  | finished hps => exact hps.calls
  | @failed W reached rest p x s e hps hx hre hfail =>
    rw [hps, dirtyAmong_append, List.map_append, dirtyAmong_cons, hx]
    exact serveAll_stops (c := .write x) hre.calls hfail _

/-- Some pages of the list have been cleaned, and nothing else has happened to the cache. -/
theorem Flushed.reworked {r : Except Error Unit} (h : Flushed P ps Q r) :
    ∃ reached, reached ⊆ ps ∧ Reworked P Q reached fun _ x => x.markClean := by
  cases h with
  | finished hps => exact ⟨ps, List.Subset.refl ps, hps.pages⟩
  | @failed W reached rest p x s e hps hx hre hfail =>
    obtain ⟨hlocks, hres, hsize, hlisted, hother⟩ := hre.pages
    exact ⟨reached, hps ▸ List.subset_append_left reached _, hlocks, hres, hsize, hlisted, hother⟩

end Cleaning

/-! ## What the files hold then -/

/-- `d'` is `d` with the contents of these pages. -/
structure Overwritten (d d' : Tables) (xs : List Page) : Prop where
  catalog : d'.catalog = d.catalog
  written : ∀ x ∈ xs, d'.contents x.id = x.data
  kept : ∀ p, (∀ x ∈ xs, x.id ≠ p) → d'.contents p = d.contents p
  lengths : ∀ t, (d'.bytesOf t).size = (d.bytesOf t).size
  /-- Files that back no table are left alone. -/
  files : ∀ name, (∀ (t : TableId) (s : Store), d.catalog[t]? = some s → s.file.file.name ≠ name) →
    (d'.disk.file name).file = (d.disk.file name).file

theorem overwritten_of_serveAll {xs : List Page} : ∀ {d d' : Tables}, d.Apart → (∀ x ∈ xs, d.HasPage x.id) →
    xs.Pairwise (fun x y => x.id ≠ y.id) → serveAll d (xs.map .write) = (d', .ok ()) → Overwritten d d' xs := by
  induction xs with
  | nil =>
    intro d d' _ _ _ h
    obtain rfl := congrArg Prod.fst h
    exact ⟨rfl, fun x hx => absurd hx List.not_mem_nil, fun _ _ => rfl, fun _ => rfl, fun _ _ => rfl⟩
  | cons x xs ih =>
    intro d d' hd hin hapart h
    obtain ⟨hx, hapart'⟩ := List.pairwise_cons.1 hapart
    rw [List.map_cons, serveAll, serve] at h
    rcases Tables.writePage_cases hd (hin x List.mem_cons_self) with ⟨disk, e, hw, -⟩ | ⟨d₁, hw, hone⟩
    · rw [show Storage.writePage d x = _ from hw] at h
      cases congrArg Prod.snd h
    · rw [show Storage.writePage d x = _ from hw] at h
      have hlonger : d.NoShorter d₁ := fun t => Nat.le_of_eq (hone.lengths t).symm
      obtain ⟨hcat, hwritten, hkept, hlengths, hfiles⟩ := ih (hd.congr hone.catalog)
        (fun y hy => hlonger.hasPage (hin y (List.mem_cons_of_mem x hy))) hapart' h
      refine ⟨hcat.trans hone.catalog, fun y hy => ?_, fun p hp => ?_, fun t => ?_, fun name hname => ?_⟩
      · rcases List.mem_cons.1 hy with rfl | hmem
        · rw [hkept _ fun z hz => (hx z hz).symm, hone.contents, if_pos rfl]
        · exact hwritten y hmem
      · have hne : p ≠ x.id := (hp x List.mem_cons_self).symm
        rw [hkept p fun y hy => hp y (List.mem_cons_of_mem x hy), hone.contents, if_neg hne]
      · rw [hlengths, hone.lengths]
      · rw [hfiles name fun t s hs => hname t s (hone.catalog ▸ hs), hone.files name hname]

theorem Overwritten.refaulted {d d' : Tables} {xs : List Page} (h : Overwritten d d' xs) {disk : Disk}
    (hdisk : d'.disk.Refaulted disk) : Overwritten d { d' with disk } xs where
  catalog := h.catalog
  written x hx := (Tables.contents_of_refaulted hdisk _).trans (h.written x hx)
  kept p hp := (Tables.contents_of_refaulted hdisk _).trans (h.kept p hp)
  lengths t := (congrArg Array.size (Tables.bytesOf_of_refaulted hdisk t)).trans (h.lengths t)
  files name hname := (hdisk.file name).trans (h.files name hname)

section Files

variable {P Q : Pool Tables} {ps order : List PageId} {p : PageId} {f : FrameId}

theorem Cleaned.overwritten (h : Cleaned P Q ps) (hP : P.Lodged) (hps : ps.Nodup) :
    Overwritten P.storage Q.storage (P.dirtyAmong ps) := by
  refine overwritten_of_serveAll hP.apart (fun x hx => ?_) (dirtyAmong_apart hP.filed hps) h.calls
  obtain ⟨g, hg, -⟩ := dirtyImage_eq_some.1 ((mem_dirtyAmong hP.filed).1 hx).2
  exact hP.within _ g hg

/-- What the files hold for a page after the dirty pages of a list were written. -/
theorem Overwritten.contents_eq {d d' : Tables} (h : Overwritten d d' (P.dirtyAmong ps)) (hP : P.Filed) (p : PageId) :
    (p ∈ ps → d'.contents p = ((P.dirtyImage p).map Page.data).getD (d.contents p)) ∧
    (p ∉ ps → d'.contents p = d.contents p) := by
  refine ⟨fun hp => ?_, fun hp => ?_⟩
  · cases hx : P.dirtyImage p with
    | none =>
      refine h.kept p fun x hmem hid => ?_
      obtain ⟨-, hx'⟩ := (mem_dirtyAmong hP).1 hmem
      rw [hid, hx] at hx'
      cases hx'
    | some x =>
      obtain rfl := id_of_dirtyImage hP hx
      exact h.written x ((mem_dirtyAmong hP).2 ⟨hp, hx⟩)
  · refine h.kept p fun x hmem hid => hp ?_
    exact hid ▸ ((mem_dirtyAmong hP).1 hmem).1

/-! ## Where no write fails -/

theorem sound_of_serveAll {xs : List Page} : ∀ {d d' : Tables} {r : Except Error Unit}, d.Sound →
    (∀ x ∈ xs, d.HasPage x.id) → serveAll d (xs.map .write) = (d', r) → r = .ok () ∧ d'.Sound := by
  induction xs with
  | nil =>
    intro d d' r hd _ h
    obtain ⟨rfl, rfl⟩ := Prod.mk.inj h
    exact ⟨rfl, hd⟩
  | cons x xs ih =>
    intro d d' r hd hin h
    obtain ⟨d₁, hw, hrw⟩ := Tables.writePage_spec hd (hin x List.mem_cons_self)
    rw [List.map_cons, serveAll, serve, show Storage.writePage d x = _ from hw] at h
    exact ih hrw.sound (fun y hy => hrw.hasPage (hin y (List.mem_cons_of_mem x hy))) h

/-- **A list is written to its end**, where no call on a file fails. -/
theorem flushIn_sound (hd : P.storage.Sound) (hP : P.Filed)
    (hwithin : ∀ (p : PageId) (f : FrameId), P.resident[p]? = some f → P.storage.HasPage p) (hps : ps.Nodup) :
    ∃ Q, P.flushIn ps = (Q, .ok ()) ∧ Cleaned P Q ps ∧ Q.storage.Sound := by
  have hflush := flushIn_flushed ps P hP hps
  have hin : ∀ x ∈ P.dirtyAmong ps, P.storage.HasPage x.id := by
    intro x hx
    obtain ⟨f, hf, -⟩ := dirtyImage_eq_some.1 ((mem_dirtyAmong hP).1 hx).2
    exact hwithin _ f hf
  obtain ⟨hok, hsound⟩ := sound_of_serveAll hd hin hflush.calls
  generalize hQ : P.flushIn ps = R at hflush hok hsound ⊢
  obtain ⟨Q, r⟩ := R
  cases hflush with
  | finished hclean => exact ⟨_, rfl, hclean, hsound⟩
  | failed => cases hok

/-! ## The whole cache -/

/-- What has happened to the cache and the files when the whole cache was written. -/
structure WrittenOut (P Q : Pool Tables) : Prop where
  clean : ∀ (p : PageId) (f : FrameId), P.resident[p]? = some f → Q.page f = (P.page f).markClean
  contents : ∀ p, Q.storage.contents p = ((P.dirtyImage p).map Page.data).getD (P.storage.contents p)
  writebacks : Q.counters.writebacks = P.counters.writebacks + (P.dirtyAmong P.residentPages).length
  /-- Writing it again, in any order, writes nothing. -/
  again : ∀ order : List PageId, order.Perm Q.residentPages →
    Q.dirtyAmong order = [] ∧ Q.flushIn order = (Q, .ok ())

/-- What has happened when a write has failed. -/
structure WrittenInPart (P Q : Pool Tables) : Prop where
  /-- A cached page was dirty, and is clean with its bytes stored; or it is as it was. -/
  pages : ∀ (p : PageId) (f : FrameId), P.resident[p]? = some f →
    ((P.page f).dirty ≠ none ∧ Q.page f = (P.page f).markClean ∧ Q.storage.contents p = (P.page f).data) ∨
    (Q.page f = P.page f ∧ Q.storage.contents p = P.storage.contents p)
  /-- The other pages hold what they held. -/
  kept : ∀ p : PageId, P.resident[p]? = none → Q.storage.contents p = P.storage.contents p
  /-- There is a dirty page still. -/
  remains : ∃ (p : PageId) (f : FrameId), Q.resident[p]? = some f ∧ (Q.page f).dirty ≠ none

/-- What it means to write out the whole cache in this order, exactly. -/
structure FlushesExactly (P : Pool Tables) (order : List PageId) : Prop where
  /-- A storage is asked to write each page of a list, up to the first write that fails, and the failure of that one
  is given. -/
  calls : ∀ (δ : Type) [Storage δ] (s : δ), serveAll s ((P.dirtyAmong order).map .write) =
    (((P.withStorage s).flushIn order).1.storage, ((P.withStorage s).flushIn order).2)
  /-- The pages of the list are the dirty ones, -/
  dirty : ∀ x, x ∈ P.dirtyAmong order ↔ x.dirty ≠ none ∧ ∃ f, P.resident[x.id]? = some f ∧ P.page f = x
  /-- each once, -/
  once : (P.dirtyAmong order).Pairwise fun x y => x.id ≠ y.id
  /-- and as many as there are dirty pages. -/
  number : (P.dirtyAmong order).length = (P.dirtyAmong P.residentPages).length
  locks : (P.flushIn order).1.locks = P.locks
  resident : (P.flushIn order).1.resident = P.resident
  /-- An image keeps its page, its data and its before-image, -/
  images : ∀ f, ((P.flushIn order).1.page f).id = (P.page f).id ∧
    ((P.flushIn order).1.page f).data = (P.page f).data ∧
    ((P.flushIn order).1.page f).beforeImage = (P.page f).beforeImage
  /-- and one that is not cached its marker too. -/
  uncached : ∀ f, (∀ p : PageId, P.resident[p]? ≠ some f) → (P.flushIn order).1.page f = P.page f
  /-- No file has another length, and files that back no table hold what they held. -/
  lengths : ∀ t, ((P.flushIn order).1.storage.bytesOf t).size = (P.storage.bytesOf t).size
  files : ∀ name, (∀ (t : TableId) (s : Store), P.storage.catalog[t]? = some s → s.file.file.name ≠ name) →
    ((P.flushIn order).1.storage.disk.file name).file = (P.storage.disk.file name).file
  succeeds : (P.flushIn order).2 = .ok () → WrittenOut P (P.flushIn order).1
  fails : ∀ e, (P.flushIn order).2 = .error e → WrittenInPart P (P.flushIn order).1

theorem mem_order (horder : order.Perm P.residentPages) {p : PageId} :
    p ∈ order ↔ (P.resident[p]?).isSome := horder.mem_iff.trans mem_residentPages

theorem dirtyAmong_eq_nil (h : ∀ (p : PageId) (f : FrameId), P.resident[p]? = some f → (P.page f).dirty = none)
    (ps : List PageId) : P.dirtyAmong ps = [] := by
  refine List.filterMap_eq_nil_iff.2 fun p _ => ?_
  cases hf : P.resident[p]? with
  | none => exact dirtyImage_of_none hf
  | some f => exact dirtyImage_of_clean hf (h p f hf)

/-- A cache without dirty pages is written out without effect. -/
theorem flushIn_of_clean (h : ∀ (p : PageId) (f : FrameId), P.resident[p]? = some f → (P.page f).dirty = none)
    (ps : List PageId) : P.flushIn ps = (P, .ok ()) := by
  induction ps with
  | nil => rfl
  | cons p ps ih =>
    unfold flushIn
    split
    · exact ih
    · rename_i f hf
      have hw : P.writeBack f = (P, .ok false) := by simp [writeBack, Page.isClean, h p f hf]
      rw [hw]
      exact ih

theorem Cleaned.writtenOut (h : Cleaned P Q order) (hP : P.Lodged) (horder : order.Perm P.residentPages) :
    WrittenOut P Q := by
  have hlisted : ∀ (p : PageId) (f : FrameId), P.resident[p]? = some f → p ∈ order := fun p f hf =>
    (mem_order horder).2 (by rw [hf]; rfl)
  have hclean : ∀ (p : PageId) (f : FrameId), P.resident[p]? = some f → Q.page f = (P.page f).markClean := fun p f hf =>
    h.pages.listed p (hlisted p f hf) f hf
  have hdone : ∀ (p : PageId) (f : FrameId), Q.resident[p]? = some f → (Q.page f).dirty = none := fun p f hf => by
    rw [hclean p f (h.pages.resident ▸ hf)]
    rfl
  have hstored := h.overwritten hP (horder.nodup_iff.2 P.nodup_residentPages)
  refine ⟨hclean, fun p => ?_, ?_, fun ps _ => ⟨dirtyAmong_eq_nil hdone ps, flushIn_of_clean hdone ps⟩⟩
  · obtain ⟨hin, hout⟩ := hstored.contents_eq hP.filed p
    cases hf : P.resident[p]? with
    | some f => exact hin (hlisted p f hf)
    | none =>
      rw [hout fun hp => by simpa [hf] using (mem_order horder).1 hp, dirtyImage_of_none hf]
      rfl
  · rw [h.writebacks, (dirtyAmong_perm horder).length_eq]

/-- The pages that were reached are clean, and the page at which the write failed is still dirty. -/
theorem Cleaned.writtenInPart {reached rest : List PageId} (h : Cleaned P Q reached) (hP : P.Lodged)
    (hps : (reached ++ p :: rest).Nodup) {x : Page} (hx : P.dirtyImage p = some x) {disk : Disk}
    (hdisk : Q.storage.disk.Refaulted disk) :
    WrittenInPart P { Q with storage := { Q.storage with disk } } := by
  obtain ⟨hnd, hnd', hdisj⟩ := List.nodup_append.1 hps
  have hstored := (h.overwritten hP hnd).refaulted hdisk
  refine ⟨fun q f hf => ?_, fun q hq => ?_, ?_⟩
  · obtain ⟨hin, hout⟩ := hstored.contents_eq hP.filed q
    have hpage := h.pages.page_eq hP.filed hf
    by_cases hq : q ∈ reached
    · rw [if_pos hq] at hpage
      cases hdirty : (P.page f).dirty with
      | none =>
        refine .inr ⟨hpage.trans (Page.markClean_of_clean hdirty), ?_⟩
        rw [hin hq, dirtyImage_of_clean hf hdirty]
        rfl
      | some u =>
        have hsome : (P.page f).dirty ≠ none := by simp [hdirty]
        refine .inl ⟨by simp, hpage, ?_⟩
        rw [hin hq, dirtyImage_of_dirty hf hsome]
        rfl
    · rw [if_neg hq] at hpage
      exact .inr ⟨hpage, hout hq⟩
  · obtain ⟨hin, hout⟩ := hstored.contents_eq hP.filed q
    by_cases hmem : q ∈ reached
    · rw [hin hmem, dirtyImage_of_none hq]
      rfl
    · exact hout hmem
  · obtain ⟨f, hf, hpage, hdirty⟩ := dirtyImage_eq_some.1 hx
    refine ⟨p, f, (congrArg (·[p]?) h.pages.resident).trans hf, ?_⟩
    have hnot : p ∉ reached := fun hp => hdisj p hp p List.mem_cons_self rfl
    have hsame := h.pages.page_eq hP.filed hf
    rw [if_neg hnot, hpage] at hsame
    show (Q.page f).dirty ≠ none
    rw [hsame]
    exact hdirty

/-- What has been written when the write of a list ends, and where it ended. -/
theorem Flushed.outcome {r : Except Error Unit} (h : Flushed P order Q r) (hP : P.Lodged)
    (horder : order.Perm P.residentPages) :
    (∃ xs, Overwritten P.storage Q.storage xs) ∧
    (r = .ok () → WrittenOut P Q) ∧ (∀ e, r = .error e → WrittenInPart P Q) := by
  have hnd : order.Nodup := horder.nodup_iff.2 P.nodup_residentPages
  cases h with
  | finished hall =>
    exact ⟨⟨_, hall.overwritten hP hnd⟩, fun _ => hall.writtenOut hP horder, fun e he => by cases he⟩
  | @failed W reached rest p x s e hps hx hre hfail =>
    subst hps
    obtain ⟨hnd', -, -⟩ := List.nodup_append.1 hnd
    have hstored := hre.overwritten hP hnd'
    obtain rfl := id_of_dirtyImage hP.filed hx
    obtain ⟨f, hf, -⟩ := dirtyImage_eq_some.1 hx
    have hlonger : P.storage.NoShorter W.storage := fun t => Nat.le_of_eq (hstored.lengths t).symm
    -- The write that fails has changed no file.
    rcases Tables.writePage_cases (hP.apart.congr hstored.catalog) (hlonger.hasPage (hP.within _ f hf)) with
      ⟨disk, e', hw, hdisk⟩ | ⟨d', hw, -⟩
    · obtain rfl := (Prod.mk.inj (hfail.symm.trans hw)).1
      exact ⟨⟨_, hstored.refaulted hdisk⟩, fun hok => (by cases hok), fun _ _ => hre.writtenInPart hP hnd hx hdisk⟩
    · cases (Prod.mk.inj (hfail.symm.trans hw)).2

/-- **Writing out the whole cache, in any order.** In every state to which a pool over heap files comes, whatever
calls on the files fail. -/
theorem flushes_exactly {capacity : Nat} {draws : Draws} {d : Tables} {P₀ : Pool Tables} (hd : d.Apart)
    (hP₀ : create capacity draws d = .ok P₀) (hreach : P₀.ReachesBy CacheOp.InFiles P)
    (horder : order.Perm P.residentPages) : FlushesExactly P order := by
  have hP := hreach.lodged hd hP₀
  have hnd : order.Nodup := horder.nodup_iff.2 P.nodup_residentPages
  have hflush := flushIn_flushed order P hP.filed hnd
  obtain ⟨⟨xs, hstored⟩, hok, herror⟩ := hflush.outcome hP horder
  obtain ⟨reached, hsub, hre⟩ := hflush.reworked
  refine ⟨fun δ _ s => ?_, fun x => ?_, dirtyAmong_apart hP.filed hnd,
    (dirtyAmong_perm horder).length_eq, hre.locks, hre.resident, fun f => ?_, fun f hf => ?_,
    hstored.lengths, hstored.files, hok, herror⟩
  · exact (flushIn_flushed order (P.withStorage s) (fun p f hf => hP.filed p f hf) hnd).calls
  · rw [mem_dirtyAmong hP.filed, mem_order horder, dirtyImage_eq_some]
    constructor
    · rintro ⟨-, f, hf, hpage, hdirty⟩
      exact ⟨hdirty, f, hf, hpage⟩
    · rintro ⟨hdirty, f, hf, hpage⟩
      exact ⟨by rw [hf]; rfl, f, hf, hpage, hdirty⟩
  · rcases hre.page_cases f with hsame | ⟨p, -, -, hpage⟩
    · rw [hsame]
      exact ⟨rfl, rfl, rfl⟩
    · rw [hpage]
      exact ⟨rfl, rfl, rfl⟩
  · exact hre.other f fun p _ => hf p

end Files

/-- A cache with places for both pages of the table. -/
def roomyPair : Pool Tables := { capacity := 2, storage := pairPool.storage, draws := Draws.ofSeed 7 }

theorem pairPool_apart : pairPool.storage.Apart := by
  have hcat : ∀ (t : TableId) (s : Store), pairPool.storage.catalog[t]? = some s →
      t = ⟨1⟩ ∧ ∃ h, s = .heap h ∧ h.table = ⟨1⟩ := by
    intro t s hs
    simp only [pairPool, Tables.catalog_register] at hs
    split at hs
    · rename_i ht
      exact ⟨ht, _, (Option.some.inj hs).symm, rfl⟩
    · simp at hs
  refine ⟨fun t s hs => ?_, fun t u s r hs hr _ => (hcat t s hs).1.trans (hcat u r hr).1.symm⟩
  obtain ⟨rfl, hheap⟩ := hcat t s hs
  exact hheap

theorem reachesBy_crowd (P : Pool Tables) : P.ReachesBy CacheOp.InFiles P.crowd := by
  have hfetch : P.ReachesBy CacheOp.InFiles (CacheOp.run P (.fetch ⟨⟨1⟩, 0⟩)) := ReachesBy.refl.step trivial trivial
  have htouch := hfetch.step
    (o := .touch ⟨0⟩ (((CacheOp.run P (.fetch ⟨⟨1⟩, 0⟩)).page ⟨0⟩).markDirty ⟨1⟩)) rfl trivial
  exact htouch.step (o := .fetch ⟨⟨1⟩, 1⟩) trivial trivial

/-- The pages were fetched, and the first of them was dirtied. They are written out in descending order. -/
theorem flushes_exactly_pair :
    pairPool.storage.Apart ∧ create 2 (Draws.ofSeed 7) pairPool.storage = .ok roomyPair ∧
    roomyPair.ReachesBy CacheOp.InFiles roomyPair.crowd ∧
    FlushesExactly roomyPair.crowd roomyPair.crowd.residentPages.reverse :=
  have hroomy : create 2 (Draws.ofSeed 7) pairPool.storage = .ok roomyPair := rfl
  have hreach := roomyPair.reachesBy_crowd
  ⟨pairPool_apart, hroomy, hreach, flushes_exactly pairPool_apart hroomy hreach (List.reverse_perm _)⟩

end Pool

end PageEngine
