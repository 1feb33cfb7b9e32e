import PageEngine.Proofs.Storage.Lengthening

/-!
# `Proofs/Storage/Overwriting.lean` — pages that are written in place, on a disk that may fail

Where every table has a heap file of its own (`Tables.Apart`), a page that its table has is written over its
old contents. Which calls on the files fail, and what lengths are reported, does not matter:

> **the write fails and changes no file, or it changes the contents of that page and of no other** and no
> length (`Tables.writePage_cases`).
-/

set_option autoImplicit false

namespace PageEngine

open Std

namespace Disk

variable {d d' : Disk} {r : FileRef}

/-- **A write below the offset limit that succeeds overlays the file of its name.** -/
theorem overlay_of_writeAt {off : Nat} {b : Bytes} (hpos : 0 < b.size)
    (hlim : off + b.size < systemOffsetLimit) (h : d.writeAt r off b = (d', .ok ())) :
    d'.bytes r.name = (d.bytes r.name).overlay off b ∧ ∀ name, name ≠ r.name → d'.file name = d.file name := by
  obtain ⟨hok, hbytes⟩ := File.writeAt_inside (f := (d.view r).file) hpos hlim
  by_cases hleft : (d.view r).faults.writesLeft = some 0
  · simp only [writeAt, FaultyFile.writeAt, if_pos hleft] at h
    cases (Prod.mk.inj h).2
  · simp only [writeAt, FaultyFile.writeAt, if_neg hleft, hok] at h
    obtain rfl := (Prod.mk.inj h).1
    refine ⟨?_, fun name hname => d.file_store_other _ hname⟩
    rw [bytes_store, if_pos rfl, hbytes, file_view]
    rfl

end Disk

/-- Bytes that are written inside do not make the others longer. -/
theorem Bytes.size_overlay_inside {b src : Bytes} {off : Nat} (h : off + src.size ≤ b.size) :
    (b.overlay off src).size = b.size := by
  rw [Bytes.size_overlay]
  omega

namespace Tables

/-- Every table is backed by a heap file, and every file backs one table. -/
structure Apart (d : Tables) : Prop where
  heap : ∀ (t : TableId) (s : Store), d.catalog[t]? = some s → ∃ h, s = .heap h ∧ h.table = t
  files : ∀ (t u : TableId) (s r : Store), d.catalog[t]? = some s → d.catalog[u]? = some r →
    s.file.file.name = r.file.file.name → t = u

variable {d d' d'' : Tables} {p q : PageId} {x : Page}

theorem Sound.apart_files (hd : d.Sound) : d.Apart := ⟨hd.heap, hd.apart⟩

theorem Apart.congr (hd : d.Apart) (hc : d'.catalog = d.catalog) : d'.Apart where
  heap t s hs := hd.heap t s (hc ▸ hs)
  files t u s r hs hr := hd.files t u s r (hc ▸ hs) (hc ▸ hr)

/-- No file of a table has become shorter. -/
def NoShorter (d d' : Tables) : Prop := ∀ t, (d.bytesOf t).size ≤ (d'.bytesOf t).size

theorem NoShorter.hasPage (h : NoShorter d d') (hp : d.HasPage p) : d'.HasPage p :=
  ⟨Nat.lt_of_lt_of_le hp.1 (Nat.div_le_div_right (h p.table)), hp.2⟩

theorem noShorter_of_disk (hc : d'.catalog = d.catalog) (h : d.disk.NoShorter d'.disk) : NoShorter d d' := by
  intro t
  unfold bytesOf
  rw [hc]
  split
  · exact h _
  · exact Nat.le_refl _

/-- A page that its table has lies within the file. -/
theorem HasPage.inside (hp : d.HasPage p) : p.offset + pageSize ≤ (d.bytesOf p.table).size := by
  have hlt := hp.1
  simp only [pages, PageId.offset, pageSize] at *
  omega

/-- `d'` is `d` with other contents of the page `p`, which its table has. -/
structure Overwritten (d d' : Tables) (p : PageId) (data : PageData) : Prop where
  catalog : d'.catalog = d.catalog
  contents : ∀ q, d'.contents q = if q = p then data else d.contents q
  lengths : ∀ t, (d'.bytesOf t).size = (d.bytesOf t).size
  /-- Files that back no table are left alone. -/
  files : ∀ name, (∀ (t : TableId) (s : Store), d.catalog[t]? = some s → s.file.file.name ≠ name) →
    d'.disk.file name = d.disk.file name

theorem HasPage.registered_of_apart (hp : d.HasPage p) (hd : d.Apart) :
    ∃ h, d.catalog[p.table]? = some (.heap h) ∧ h.table = p.table := by
  cases hs : d.catalog[p.table]? with
  | none =>
    have hlt := hp.1
    simp [pages, bytesOf, hs] at hlt
  | some s =>
    obtain ⟨h, rfl, ht⟩ := hd.heap _ _ hs
    exact ⟨h, rfl, ht⟩

/-- Bytes that overlay a page in the file of its table become its contents. -/
theorem overwritten_of_overlay (hd : d.Apart) {h : HeapFile} {disk : Disk}
    (hs : d.catalog[p.table]? = some (.heap h)) (hp : d.HasPage p) {data : PageData}
    (hself : disk.bytes h.file.name = (d.disk.bytes h.file.name).overlay p.offset data.bytes)
    (hother : ∀ name, name ≠ h.file.name → disk.file name = d.disk.file name) :
    Overwritten d { d with disk } p data := by
  have htable : bytesOf { d with disk } p.table = (d.bytesOf p.table).overlay p.offset data.bytes := by
    rw [bytesOf_of_heap (d := { d with disk }) hs, bytesOf_of_heap hs]
    exact hself
  have hrest : ∀ t, t ≠ p.table → bytesOf { d with disk } t = d.bytesOf t := by
    intro t ht
    cases hr : d.catalog[t]? with
    | none => simp only [bytesOf, hr]
    | some r =>
      have hname : r.file.file.name ≠ h.file.name := fun he => ht (hd.files _ _ _ _ hr hs he)
      simp only [bytesOf, hr, Disk.bytes, hother _ hname]
  refine ⟨rfl, fun q => ?_, fun t => ?_, fun name hname => hother name (hname _ _ hs).symm⟩
  · by_cases hq : q = p
    · rw [hq, if_pos rfl, contents, htable, PageData.ofBytes_overlay_self]
    · rw [if_neg hq, contents, contents]
      by_cases ht : q.table = p.table
      · rw [ht, htable, PageData.ofBytes_overlay_other _ _ (offset_apart ht hq)]
      · rw [hrest _ ht]
  · by_cases ht : t = p.table
    · rw [ht, htable, Bytes.size_overlay_inside (by rw [data.size_eq]; exact hp.inside)]
    · rw [hrest t ht]

/-- **A page that its table has is written over its old contents, or the write fails and changes no file.** -/
theorem writePage_cases (hd : d.Apart) (hp : d.HasPage x.id) :
    (∃ disk e, d.writePage x = ({ d with disk }, .error e) ∧ d.disk.Refaulted disk) ∨
    ∃ d', d.writePage x = (d', .ok ()) ∧ Overwritten d d' x.id x.data := by
  obtain ⟨h, hs, ht⟩ := hp.registered_of_apart hd
  have hpos : 0 < x.data.bytes.size := by
    rw [x.data.size_eq]
    decide
  have hlim : x.id.offset + x.data.bytes.size < systemOffsetLimit := by
    rw [x.data.size_eq]
    exact offset_lt hp.2
  rcases hw : d.disk.writeAt h.file x.id.offset x.data.bytes with ⟨disk, e | ⟨⟩⟩
  · refine .inl ⟨disk, e, ?_, Disk.refaulted_of_writeAt hpos hlim hw⟩
    simp only [writePage, store_of_heap hs, Store.file, HeapFile.writePage, ht, ne_eq, not_true_eq_false,
      if_false, hw]
  · obtain ⟨hself, hother⟩ := Disk.overlay_of_writeAt hpos hlim hw
    refine .inr ⟨{ d with disk }, ?_, overwritten_of_overlay hd hs hp hself hother⟩
    simp only [writePage, store_of_heap hs, Store.file, HeapFile.writePage, ht, ne_eq, not_true_eq_false,
      if_false, hw]

end Tables

end PageEngine
