import PageEngine.Proofs.Storage.Growth

/-!
# `Proofs/Storage/Lengthening.lean` — a heap file that grows while calls begin and cease to fail

Which calls on a file fail can change at any time, and nothing else changes with it (`Disk.Refaulted`). A heap
file that is grown again and again under such conditions is told of as one (`Tables.Longer`):

> **it has so many pages more, which hold zeros**, its old pages hold what they held, and so do all other files.

An append that fails has changed no file, so it is only a change of the calls that fail.
-/

set_option autoImplicit false

namespace PageEngine

open Std

namespace Disk

/-- The same files, of which other calls may fail. What is reported of their lengths is the same. -/
structure Refaulted (d d' : Disk) : Prop where
  file : ∀ name, (d'.file name).file = (d.file name).file
  fakeLen : ∀ name, (d'.file name).faults.fakeLen = (d.file name).faults.fakeLen

variable {d d' : Disk} {r : FileRef}

theorem Refaulted.refl (d : Disk) : d.Refaulted d := ⟨fun _ => rfl, fun _ => rfl⟩

theorem Refaulted.bytes (h : d.Refaulted d') (name : String) : d'.bytes name = d.bytes name := by
  rw [Disk.bytes, h.file, Disk.bytes]

theorem Refaulted.candid (h : d.Refaulted d') (hc : d.Candid r) : d'.Candid r := by
  unfold Candid view at *
  cases hr : r.direct with
  | true => rfl
  | false =>
    rw [hr] at hc
    exact (h.fakeLen r.name).trans hc

/-- What is seen of a file can be stored without effect. -/
theorem file_store_view (d : Disk) (r : FileRef) (name : String) : (d.store r (d.view r)).file name = d.file name := by
  unfold store view
  cases r.direct with
  | true =>
    simp only [if_true, file_put]
    split
    · rename_i hname
      rw [hname]
    · rfl
  | false =>
    simp only [Bool.false_eq_true, if_false, file_put]
    split
    · rename_i hname
      rw [hname]
    · rfl

/-- **A write that fails below the offset limit has no effect.** -/
theorem refaulted_of_writeAt {off : Nat} {b : Bytes} {e : Error} (hpos : 0 < b.size)
    (hlim : off + b.size < systemOffsetLimit) (h : d.writeAt r off b = (d', .error e)) : d.Refaulted d' := by
  obtain ⟨hok, -⟩ := File.writeAt_inside (f := (d.view r).file) hpos hlim
  by_cases hleft : (d.view r).faults.writesLeft = some 0
  · simp only [writeAt, FaultyFile.writeAt, if_pos hleft] at h
    obtain rfl := (Prod.mk.inj h).1
    exact ⟨fun name => by rw [d.file_store_view], fun name => by rw [d.file_store_view]⟩
  · simp only [writeAt, FaultyFile.writeAt, if_neg hleft, hok] at h
    cases (Prod.mk.inj h).2

end Disk

theorem HeapFile.eq_of_numPages {h : HeapFile} {d : Disk} {n : Nat} (hc : d.Candid h.file)
    (hn : h.numPages d = .ok n) : n = h.pagesOn d := by
  unfold HeapFile.numPages at hn
  rcases Disk.len_of_candid hc with ⟨-, hlen⟩ | hlen
  · rw [hlen] at hn
    cases hn
  · rw [hlen] at hn
    dsimp only at hn
    split at hn
    · exact (Except.ok.inj hn).symm
    · cases hn

namespace Tables

variable {d d' d'' : Tables} {h : HeapFile} {k : Nat}

/-- `d'` is `d` with `k` more pages in a heap file, which hold zeros. -/
structure Longer (h : HeapFile) (k : Nat) (d d' : Tables) : Prop where
  catalog : d'.catalog = d.catalog
  pages : d'.pages h.table = d.pages h.table + k
  zeros : ∀ j < k, d'.contents ⟨h.table, d.pages h.table + j⟩ = PageData.zeros
  /-- The pages that there were hold what they held, -/
  contents : ∀ p, p.table = h.table → p.pageNo < d.pages h.table → d'.contents p = d.contents p
  /-- and so do the other files. -/
  files : ∀ name, name ≠ h.file.name → d'.disk.bytes name = d.disk.bytes name

theorem Longer.refl (h : HeapFile) (d : Tables) : Longer h 0 d d :=
  ⟨rfl, rfl, fun _ hj => absurd hj (Nat.not_lt_zero _), fun _ _ _ => rfl, fun _ _ => rfl⟩

theorem bytesOf_of_refaulted {disk : Disk} (hd : d.disk.Refaulted disk) (t : TableId) :
    bytesOf { d with disk } t = d.bytesOf t := by
  unfold bytesOf
  dsimp only
  split
  · exact hd.bytes _
  · rfl

theorem pages_of_refaulted {disk : Disk} (hd : d.disk.Refaulted disk) (t : TableId) :
    pages { d with disk } t = d.pages t := by
  rw [pages, bytesOf_of_refaulted hd, pages]

theorem contents_of_refaulted {disk : Disk} (hd : d.disk.Refaulted disk) (p : PageId) :
    contents { d with disk } p = d.contents p := by
  rw [contents, bytesOf_of_refaulted hd, contents]

theorem Longer.refaulted (hl : Longer h k d d') {disk : Disk} (hd : d'.disk.Refaulted disk) :
    Longer h k d { d' with disk } := by
  refine ⟨hl.catalog, ?_, fun j hj => ?_, fun p ht hp => ?_, fun name hname => ?_⟩
  · rw [pages_of_refaulted hd, hl.pages]
  · rw [contents_of_refaulted hd, hl.zeros j hj]
  · rw [contents_of_refaulted hd, hl.contents p ht hp]
  · exact (hd.bytes name).trans (hl.files name hname)

theorem Longer.appended (hl : Longer h k d d') (ha : Appended h d' d'') : Longer h (k + 1) d d'' := by
  refine ⟨ha.catalog.trans hl.catalog, ?_, fun j hj => ?_, fun p ht hp => ?_, fun name hname => ?_⟩
  · rw [ha.pages, hl.pages, Nat.add_assoc]
  · rcases Nat.lt_succ_iff_lt_or_eq.1 hj with hlt | rfl
    · rw [ha.contents _ rfl ?_, hl.zeros j hlt]
      rw [hl.pages]
      simp only [ne_eq, PageId.mk.injEq, true_and]
      omega
    · have hzeros := ha.zeros
      rwa [hl.pages] at hzeros
  · rw [ha.contents p ht ?_, hl.contents p ht hp]
    rintro rfl
    rw [hl.pages] at hp
    exact absurd hp (Nat.not_lt.2 (Nat.le_add_right _ _))
  · rw [Disk.bytes, ha.files name hname]
    exact hl.files name hname

/-- **Growing a heap file whose pages were counted**, on a disk that may fail: it fails and changes nothing, or
the file is one page longer. -/
theorem append_spec (hs : d.catalog[h.table]? = some (.heap h)) (hc : d.disk.Candid h.file) :
    (∃ disk e, h.append d.disk (d.pages h.table) = (disk, .error e) ∧ d.disk.Refaulted disk) ∨
    ∃ disk, h.append d.disk (d.pages h.table) = (disk, .ok ()) ∧ Appended h d { d with disk } := by
  cases hnum : h.numPages d.disk with
  | error e => exact .inl ⟨d.disk, e, by simp only [HeapFile.append, hnum], .refl _⟩
  | ok n =>
    obtain rfl : n = d.pages h.table := by rw [pages_of_heap hs, HeapFile.eq_of_numPages hc hnum]
    have hmax := HeapFile.numPages_le hnum
    rcases append_of_candid hs hc hmax with ⟨-, disk, happend⟩ | hgrown
    · refine .inl ⟨disk, _, happend, ?_⟩
      simp only [HeapFile.append, hnum, Nat.lt_irrefl, if_false, HeapFile.writePage, Page.empty, Page.ofData, ne_eq,
        not_true_eq_false] at happend
      have hlim := offset_lt (p := ⟨h.table, d.pages h.table⟩) hmax
      exact Disk.refaulted_of_writeAt (by rw [PageData.zeros.size_eq]; decide)
        (by rw [PageData.zeros.size_eq]; exact hlim) happend
    · exact .inr hgrown

end Tables

end PageEngine
