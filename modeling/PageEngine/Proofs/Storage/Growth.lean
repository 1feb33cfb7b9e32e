import PageEngine.Proofs.Storage.Contents

/-!
# `Proofs/Storage/Growth.lean` — a heap file that grows on a disk that may fail

Where calls on files may fail little can be said of a single call but that it fails or does its work. Two
things are true all the same:

> **no file gets shorter**, so a page that a heap file has it keeps; and growing adds one page of zeros behind
> the pages that are there (`Tables.Appended`), or fails.

The one thing asked of the disk is that the length it reports is the real one (`Disk.Candid`), since a heap file
knows its number of pages from nowhere else.
-/

set_option autoImplicit false

namespace PageEngine

open Std

namespace Disk

/-- No file is shorter. -/
def NoShorter (d d' : Disk) : Prop := ∀ name, (d.bytes name).size ≤ (d'.bytes name).size

theorem NoShorter.refl (d : Disk) : d.NoShorter d := fun _ => Nat.le_refl _

theorem NoShorter.pagesOn {d d' : Disk} (h : d.NoShorter d') (x : HeapFile) : x.pagesOn d ≤ x.pagesOn d' :=
  Nat.div_le_div_right (h x.file.name)

end Disk

namespace HeapFile

theorem noShorter_writePage (x : HeapFile) (d : Disk) (page : Page) : d.NoShorter (x.writePage d page).1 := by
  unfold writePage
  split
  · exact .refl _
  · exact Disk.size_writeAt _ _ _ _

theorem noShorter_append (x : HeapFile) (d : Disk) (seen : Nat) : d.NoShorter (x.append d seen).1 := by
  unfold append
  split
  · exact .refl _
  · split
    · exact .refl _
    · exact x.noShorter_writePage d _

end HeapFile

namespace Tables

variable {d : Tables} {h : HeapFile}

theorem noShorter_writePage (d : Tables) (x : Page) : d.disk.NoShorter (d.writePage x).1.disk := by
  unfold writePage
  split
  · exact .refl _
  · exact HeapFile.noShorter_writePage _ _ x

theorem noShorter_syncTable (d : Tables) (t : TableId) : d.disk.NoShorter (d.syncTable t).1.disk := by
  unfold syncTable
  split
  · exact .refl _
  · intro name
    unfold HeapFile.sync
    dsimp only
    exact Nat.le_of_eq (congrArg Array.size (Disk.bytes_sync _ _ name)).symm

/-- A page of a heap file is read, or the disk fails. -/
theorem readPage_of_candid {p : PageId} (hs : d.catalog[p.table]? = some (.heap h)) (ht : h.table = p.table)
    (hc : d.disk.Candid h.file) (hp : p.pageNo < d.pages p.table) (hmax : d.pages p.table ≤ maxPageNo) :
    (d.disk.Blind h.file ∧ d.readPage p = .error diskUnavailable) ∨ ∃ x, d.readPage p = .ok x := by
  have hin : p.offset + pageSize ≤ (d.disk.file h.file.name).file.len := by
    simp only [pages, bytesOf_of_heap hs, Disk.bytes] at hp
    simp only [PageId.offset, pageSize, File.len] at *
    omega
  have hread := File.readAt_inside hin (offset_lt (p := p) (by omega))
  have hsize : ((d.disk.file h.file.name).file.bytes.slice p.offset pageSize).size = pageSize :=
    Bytes.size_slice _ _ _
  have hpages := pages_of_heap hs
  rw [hpages] at hp hmax
  simp only [readPage, store_of_heap hs, Store.file, HeapFile.readPage, ht, ne_eq, not_true_eq_false, if_false]
  rcases HeapFile.numPages_of_candid hc hmax with ⟨hblind, hnum⟩ | hnum
  · exact .inl ⟨hblind, by rw [hnum]⟩
  · rw [hnum]
    dsimp only
    rw [if_neg (Nat.not_le.2 hp)]
    rcases d.disk.readAt_cases h.file p.offset pageSize with ⟨hblind, hcase⟩ | hcase
    · exact .inl ⟨hblind, by rw [hcase]⟩
    · refine .inr ⟨Page.ofData p ⟨_, hsize⟩, ?_⟩
      rw [hcase, hread]
      dsimp only
      rw [Page.ofBytes, dif_pos hsize]

/-- `d'` is `d` with one more page in a heap file, which holds zeros. -/
structure Appended (h : HeapFile) (d d' : Tables) : Prop where
  catalog : d'.catalog = d.catalog
  candid : d'.disk.Candid h.file
  blind : d'.disk.Blind h.file → d.disk.Blind h.file
  pages : d'.pages h.table = d.pages h.table + 1
  zeros : d'.contents ⟨h.table, d.pages h.table⟩ = PageData.zeros
  /-- The other pages of the table are as they were, -/
  contents : ∀ p, p.table = h.table → p ≠ ⟨h.table, d.pages h.table⟩ → d'.contents p = d.contents p
  /-- and so are the other files. -/
  files : ∀ name, name ≠ h.file.name → d'.disk.file name = d.disk.file name

theorem Appended.pages_other {d' : Tables} (ha : d.Appended h d') {x : HeapFile}
    (hx : d.catalog[x.table]? = some (.heap x)) (hname : x.file.name ≠ h.file.name) :
    d'.pages x.table = d.pages x.table := by
  have hx' : d'.catalog[x.table]? = some (.heap x) := by rw [ha.catalog, hx]
  rw [pages_of_heap hx, pages_of_heap hx', HeapFile.pagesOn, HeapFile.pagesOn, Disk.bytes, Disk.bytes,
    ha.files _ hname]

/-- The page belongs to the table of `h`, or to one whose store has another file. -/
def Unaliased (h : HeapFile) (d : Tables) (p : PageId) : Prop :=
  p.table = h.table ∨ ∀ s, d.catalog[p.table]? = some s → s.file.file.name ≠ h.file.name

/-- `d'` has page `n` of `h`: it was there in `d`, or it is the one page that was appended. -/
def GrownTo (h : HeapFile) (n : Nat) (d d' : Tables) : Prop :=
  (n < d.pages h.table ∧ d' = d) ∨ (n = d.pages h.table ∧ d.Appended h d')

theorem GrownTo.lt {n : Nat} {d' : Tables} (hg : GrownTo h n d d') : n < d'.pages h.table := by
  rcases hg with ⟨hlt, rfl⟩ | ⟨rfl, ha⟩
  · exact hlt
  · rw [ha.pages]
    exact Nat.lt_succ_self _

theorem GrownTo.le {n : Nat} {d' : Tables} (hg : GrownTo h n d d') : n ≤ d.pages h.table := by
  rcases hg with ⟨hlt, -⟩ | ⟨rfl, -⟩
  · exact Nat.le_of_lt hlt
  · exact Nat.le_refl _

/-- The other pages hold what they held. -/
theorem GrownTo.contents {n : Nat} {d' : Tables} (hg : GrownTo h n d d') {p : PageId} (hp : p ≠ ⟨h.table, n⟩)
    (hp' : d.Unaliased h p) : d'.contents p = d.contents p := by
  rcases hg with ⟨-, rfl⟩ | ⟨rfl, ha⟩
  · rfl
  · by_cases ht : p.table = h.table
    · exact ha.contents p ht hp
    · have hother := hp'.resolve_left ht
      have hbytes : d'.bytesOf p.table = d.bytesOf p.table := by
        unfold bytesOf
        rw [ha.catalog]
        split
        · rename_i s hs
          exact congrArg (fun f : FaultyFile => f.file.bytes) (ha.files _ (hother s hs))
        · rfl
      rw [Tables.contents, Tables.contents, hbytes]

/-- **Growing a heap file by one page**, where nobody else has grown it. -/
theorem append_of_candid (hs : d.catalog[h.table]? = some (.heap h)) (hc : d.disk.Candid h.file)
    (hmax : d.pages h.table ≤ maxPageNo) :
    ((d.disk.Blind h.file ∨ d.disk.Frozen h.file) ∧
      ∃ disk, h.append d.disk (d.pages h.table) = (disk, .error diskUnavailable)) ∨
    ∃ disk, h.append d.disk (d.pages h.table) = (disk, .ok ()) ∧ Appended h d { d with disk } := by
  have hpages := pages_of_heap hs
  have hlim := offset_lt (p := ⟨h.table, d.pages h.table⟩) hmax
  rcases HeapFile.numPages_of_candid hc (hpages ▸ hmax) with ⟨hblind, hnum⟩ | hnum
  · exact .inl ⟨.inl hblind, d.disk, by simp only [HeapFile.append, hnum]⟩
  rw [← hpages] at hnum
  have happend : h.append d.disk (d.pages h.table) =
      d.disk.writeAt h.file (PageId.offset ⟨h.table, d.pages h.table⟩) PageData.zeros.bytes := by
    simp only [HeapFile.append, hnum, Nat.lt_irrefl, if_false, HeapFile.writePage, Page.empty, Page.ofData, ne_eq,
      not_true_eq_false]
  rw [happend]
  rcases Disk.writeAt_cases hc (b := PageData.zeros.bytes) (by rw [PageData.zeros.size_eq]; decide)
    (by rw [PageData.zeros.size_eq]; exact hlim) with
    ⟨hfrozen, disk, hw⟩ | ⟨disk, hw, hcandid, hblind, hbytes, hfiles⟩
  · exact .inl ⟨.inr hfrozen, disk, hw⟩
  · have hself : bytesOf { d with disk } h.table = (d.bytesOf h.table).overlay
        (PageId.offset ⟨h.table, d.pages h.table⟩) PageData.zeros.bytes := by
      rw [bytesOf_of_heap (d := { d with disk }) hs, bytesOf_of_heap hs, hbytes]
    refine .inr ⟨disk, hw, rfl, hcandid, hblind, ?_, ?_, fun p ht hp => ?_, hfiles⟩
    · rw [Tables.pages, hself, Bytes.size_overlay, PageData.zeros.size_eq]
      simp only [Tables.pages, PageId.offset, pageSize]
      omega
    · rw [Tables.contents, hself, PageData.ofBytes_overlay_self]
    · rw [Tables.contents, Tables.contents, ht, hself, PageData.ofBytes_overlay_other _ _ (offset_apart ht hp)]

end Tables

end PageEngine
