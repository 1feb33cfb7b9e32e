import PageEngine.Proofs.Storage.Contents

/-!
# `Proofs/Storage/Ceiling.lean` — growing up to the last page number

The number of pages is worked out from the length of the file whenever it is asked for, and a file with more
pages than a page number can count has no number of pages at all: nothing of it can be read any more. Growing
puts the new page under the present number of pages. That number is a page number itself, also the largest one,
and nothing asks whether the number after it is still one.

> **growing keeps the count and every page, except for the one step past the ceiling**: a file of `maxPageNo`
> pages that is grown has every one of its pages, and none of them can be read (`append_past_ceiling`).

Writes may fail here, since a write that fails leaves its file as it was. Reads and the length may not, or a page
could not be read again for that reason.
-/

set_option autoImplicit false

namespace PageEngine

open Std

namespace Disk

/-- Through the reference reads do not fail, and the length is reported, as it is. -/
structure Legible (d : Disk) (r : FileRef) : Prop where
  read : (d.view r).faults.read = false
  len : (d.view r).faults.len = false
  candid : d.Candid r

variable {d : Disk} {r : FileRef}

theorem Legible.len_eq (h : d.Legible r) : d.len r = .ok (d.bytes r.name).size := by
  rcases len_of_candid h.candid with ⟨-, hlen⟩ | hlen
  · rw [Disk.len, FaultyFile.len, h.len] at hlen
    cases hlen
  · exact hlen

theorem Legible.readAt_eq (h : d.Legible r) (off len : Nat) :
    d.readAt r off len = (d.file r.name).file.readAt off len := by
  rw [readAt, FaultyFile.readAt, h.read, file_view]
  rfl

theorem legible_of_faultless (h : d.Faultless r.name) : d.Legible r := by
  have hview := faults_of_faultless h
  exact ⟨by rw [hview], by rw [hview], by rw [Candid, hview]⟩

/-- What is stored through a reference is what is seen through it, also if it hides the faults. -/
theorem view_store {f : FaultyFile} (hf : r.direct = true → f.faults = {}) : (d.store r f).view r = f := by
  unfold view store
  cases hr : r.direct with
  | true =>
    simp only [if_true, file_put]
    rw [← hf hr]
  | false => simp [file_put]

theorem view_writeAt (d : Disk) (r : FileRef) (off : Nat) (b : Bytes) :
    (d.writeAt r off b).1.view r = ((d.view r).writeAt off b).1 := by
  have hfaults : r.direct = true → ((d.view r).writeAt off b).1.faults = {} := by
    intro hr
    have hview : (d.view r).faults = {} := by simp [view, hr]
    simp [FaultyFile.writeAt, hview]
  exact view_store hfaults

/-- **A write below the offset limit fails and has no effect, or overlays the file**, and the reference sees no
other faults afterwards. -/
theorem Legible.writeAt (h : d.Legible r) {off : Nat} {b : Bytes} (hpos : 0 < b.size)
    (hlim : off + b.size < systemOffsetLimit) :
    (d.writeAt r off b).1.Legible r ∧
    (((d.writeAt r off b).2 ≠ .ok () ∧ (d.writeAt r off b).1.bytes r.name = d.bytes r.name) ∨
      ((d.writeAt r off b).2 = .ok () ∧
        (d.writeAt r off b).1.bytes r.name = (d.bytes r.name).overlay off b)) := by
  obtain ⟨hok, hbytes⟩ := File.writeAt_inside (f := (d.view r).file) hpos hlim
  have hview := d.view_writeAt r off b
  have hresult : (d.writeAt r off b).2 = ((d.view r).writeAt off b).2 := rfl
  have hafter : (d.writeAt r off b).1.bytes r.name = ((d.view r).writeAt off b).1.file.bytes := by
    rw [bytes, ← file_view, hview]
  rw [hresult, hafter]
  by_cases hleft : (d.view r).faults.writesLeft = some 0
  · have hw : (d.view r).writeAt off b = (d.view r, .error diskUnavailable) := by
      simp only [FaultyFile.writeAt, if_pos hleft]
    rw [hw] at hview ⊢
    refine ⟨⟨by rw [hview]; exact h.read, by rw [hview]; exact h.len, by rw [Candid, hview]; exact h.candid⟩,
      .inl ⟨by simp, ?_⟩⟩
    rw [file_view, bytes]
  · have hw : (d.view r).writeAt off b =
        (⟨((d.view r).file.writeAt off b).1,
          { (d.view r).faults with writesLeft := (d.view r).faults.writesLeft.map (· - 1) }⟩, .ok ()) := by
      simp only [FaultyFile.writeAt, if_neg hleft, hok]
    rw [hw] at hview ⊢
    refine ⟨⟨by rw [hview]; exact h.read, by rw [hview]; exact h.len, by rw [Candid, hview]; exact h.candid⟩,
      .inr ⟨rfl, ?_⟩⟩
    rw [hbytes, file_view, bytes]

end Disk

namespace HeapFile

variable {h : HeapFile} {d d' : Disk} {n seen : Nat}

theorem numPages_of_legible (hl : d.Legible h.file) :
    h.numPages d = if h.pagesOn d ≤ maxPageNo then .ok (h.pagesOn d) else .error .fileTooLarge := by
  rw [numPages, hl.len_eq]
  rfl

/-- The pages that can be read are those that are counted, if they can be counted. -/
theorem readPage_eq_ok_iff (hl : d.Legible h.file) {p : PageId} {x : Page} :
    h.readPage d p = .ok x ↔ p.table = h.table ∧ h.pagesOn d ≤ maxPageNo ∧ p.pageNo < h.pagesOn d ∧
      x = Page.ofData p (PageData.ofBytes (d.bytes h.file.name) p.offset) := by
  unfold readPage
  rw [numPages_of_legible hl]
  by_cases ht : p.table = h.table
  swap
  · simp [ht]
  by_cases hmax : h.pagesOn d ≤ maxPageNo
  swap
  · simp [ht, hmax]
  by_cases hp : p.pageNo < h.pagesOn d
  swap
  · simp [ht, hmax, hp, Nat.not_lt.1 hp]
  have hin : p.offset + pageSize ≤ (d.file h.file.name).file.len := by
    simp only [pagesOn, Disk.bytes] at hp
    simp only [PageId.offset, pageSize, File.len] at *
    omega
  have hread := File.readAt_inside hin (Tables.offset_lt (p := p) (by omega))
  have hsize : ((d.file h.file.name).file.bytes.slice p.offset pageSize).size = pageSize := Bytes.size_slice _ _ _
  simp only [ht, ne_eq, not_true_eq_false, if_false, if_pos hmax, if_neg (Nat.not_le.2 hp), hl.readAt_eq, hread,
    Page.ofBytes, dif_pos hsize, Except.ok.injEq]
  exact ⟨fun hx => ⟨trivial, hmax, hp, hx.symm⟩, fun hx => hx.2.2.2.symm⟩

/-- The heap file still has a number of pages, at least `n`, and every page that could be read can be read with
the same bytes. -/
structure Keeps (h : HeapFile) (n : Nat) (d d' : Disk) : Prop where
  counted : ∃ m, h.numPages d' = .ok m ∧ n ≤ m
  readable : ∀ p x, h.readPage d p = .ok x → h.readPage d' p = .ok x

theorem keeps_refl (hn : h.numPages d = .ok n) : h.Keeps n d d := ⟨⟨n, hn, Nat.le_refl n⟩, fun _ _ hx => hx⟩

/-- A page written at the end is one page more. -/
theorem pagesOn_of_overlay (hn : h.pagesOn d = n) (data : PageData)
    (hbytes : d'.bytes h.file.name = (d.bytes h.file.name).overlay (PageId.offset ⟨h.table, n⟩) data.bytes) :
    h.pagesOn d' = n + 1 := by
  rw [pagesOn, hbytes, Bytes.size_overlay, data.size_eq]
  simp only [pagesOn, PageId.offset, pageSize] at *
  omega

/-- A page written at the end is counted like the others, and leaves them alone. -/
theorem keeps_of_overlay (hl : d.Legible h.file) (hl' : d'.Legible h.file) (hn : h.pagesOn d = n)
    (hmax : n < maxPageNo) (data : PageData) (hbytes : d'.bytes h.file.name =
      (d.bytes h.file.name).overlay (PageId.offset ⟨h.table, n⟩) data.bytes) : h.Keeps n d d' := by
  have hpages := pagesOn_of_overlay hn data hbytes
  refine ⟨⟨n + 1, ?_, Nat.le_succ _⟩, fun p x hx => ?_⟩
  · rw [numPages_of_legible hl', hpages, if_pos (Nat.succ_le_of_lt hmax)]
  · obtain ⟨ht, -, hp, rfl⟩ := (readPage_eq_ok_iff hl).1 hx
    refine (readPage_eq_ok_iff hl').2 ⟨ht, by omega, by omega, ?_⟩
    have hne : p ≠ ⟨h.table, n⟩ := by
      rintro rfl
      exact absurd hn (Nat.ne_of_gt hp)
    rw [hbytes, PageData.ofBytes_overlay_other _ _ (Tables.offset_apart ht hne)]

/-- A file that grew past the ceiling cannot be counted. -/
theorem numPages_past_ceiling (hl' : d'.Legible h.file) (hn : h.pagesOn d = maxPageNo) (data : PageData)
    (hbytes : d'.bytes h.file.name =
      (d.bytes h.file.name).overlay (PageId.offset ⟨h.table, maxPageNo⟩) data.bytes) :
    h.numPages d' = .error .fileTooLarge := by
  rw [numPages_of_legible hl', pagesOn_of_overlay hn data hbytes, if_neg (Nat.not_succ_le_self _)]

/-- Growing a file whose pages the caller has all seen writes a page of zeros under their number. -/
theorem append_of_counted (hn : h.numPages d = .ok n) :
    h.append d n = d.writeAt h.file (PageId.offset ⟨h.table, n⟩) PageData.zeros.bytes := by
  simp only [append, hn, Nat.lt_irrefl, if_false, writePage, Page.empty, Page.ofData, ne_eq, not_true_eq_false]

/-- **Growing keeps the number of pages and every page, whether it succeeds or fails, unless it goes past the
last page number**: the file had as many pages as a page number can count, the caller has seen them all, and
the write went through. -/
theorem append_keeps_iff (hl : d.Legible h.file) (hn : h.numPages d = .ok n) (hseen : seen ≤ n) :
    h.Keeps n d (h.append d seen).1 ↔ ¬(n = maxPageNo ∧ seen = n ∧ (h.append d seen).2 = .ok ()) := by
  have hpages : h.pagesOn d = n := by
    rw [numPages_of_legible hl] at hn
    split at hn
    · exact Except.ok.inj hn
    · cases hn
  have hmax := numPages_le hn
  rcases Nat.lt_or_eq_of_le hseen with hlt | rfl
  · have happend : h.append d seen = (d, .ok ()) := by simp only [append, hn, if_pos hlt]
    rw [happend]
    exact iff_of_true (keeps_refl hn) fun hpast => by omega
  · have hlim := Tables.offset_lt (p := ⟨h.table, seen⟩) hmax
    obtain ⟨hl', ⟨hfail, hbytes⟩ | ⟨hok, hbytes⟩⟩ := hl.writeAt (b := PageData.zeros.bytes)
      (by rw [PageData.zeros.size_eq]; decide) (by rw [PageData.zeros.size_eq]; exact hlim)
    · rw [append_of_counted hn]
      refine iff_of_true ⟨⟨seen, ?_, Nat.le_refl _⟩, fun p x hx => ?_⟩ fun hpast => hfail hpast.2.2
      · rw [← hn, numPages_of_legible hl', numPages_of_legible hl, pagesOn, hbytes, pagesOn]
      · rw [readPage_eq_ok_iff hl', pagesOn, hbytes]
        exact (readPage_eq_ok_iff hl).1 hx
    · rw [append_of_counted hn]
      rcases Nat.lt_or_eq_of_le hmax with hbelow | rfl
      · refine iff_of_true ?_ fun hpast => Nat.ne_of_lt hbelow hpast.1
        exact keeps_of_overlay hl hl' hpages hbelow _ hbytes
      · refine iff_of_false (fun hkeeps => ?_) fun hnot => hnot ⟨rfl, rfl, hok⟩
        obtain ⟨m, hm, -⟩ := hkeeps.counted
        rw [numPages_past_ceiling hl' hpages _ hbytes] at hm
        cases hm

/-! ## At the ceiling -/

/-- A disk with a file of `n` pages of zeros. -/
def zeroPages (n : Nat) : Disk := Disk.put {} "t" { file := .memory { bytes := Bytes.zeros (n * pageSize) } }

theorem zeroPages_faultless (n : Nat) : (zeroPages n).Faultless "t" := by
  rw [Disk.Faultless, zeroPages, Disk.file_put, if_pos rfl]

theorem zeroPages_bytes (n : Nat) : (zeroPages n).bytes "t" = Bytes.zeros (n * pageSize) := by
  rw [zeroPages, Disk.bytes_put, if_pos rfl, File.bytes]

theorem slotsOfWidth_twentyFour : 0 < slotsOfWidth 24 ∧ slotsOfWidth 24 ≤ maxSlots := by decide

/-- A heap file over that file. -/
def zeroFile : HeapFile :=
  ⟨⟨1⟩, { name := "t" }, ⟨24, Nat.succ_pos 23, by decide, slotsOfWidth_twentyFour.1, slotsOfWidth_twentyFour.2⟩⟩

theorem zeroFile_legible (n : Nat) : (zeroPages n).Legible zeroFile.file :=
  Disk.legible_of_faultless (zeroPages_faultless n)

theorem zeroFile_pagesOn (n : Nat) : zeroFile.pagesOn (zeroPages n) = n := by
  rw [pagesOn, zeroFile, zeroPages_bytes, Bytes.size_zeros]
  exact Nat.mul_div_cancel n (by decide)

theorem zeroFile_numPages (hn : n ≤ maxPageNo) : zeroFile.numPages (zeroPages n) = .ok n := by
  rw [numPages_of_legible (zeroFile_legible n), zeroFile_pagesOn, if_pos hn]

/-- One page below the ceiling, where the last page that can be counted is appended. -/
theorem append_keeps_iff_last :
    (zeroPages (maxPageNo - 1)).Legible zeroFile.file ∧
    zeroFile.numPages (zeroPages (maxPageNo - 1)) = .ok (maxPageNo - 1) ∧
    zeroFile.Keeps (maxPageNo - 1) (zeroPages (maxPageNo - 1))
      (zeroFile.append (zeroPages (maxPageNo - 1)) (maxPageNo - 1)).1 := by
  have hlegible := zeroFile_legible (maxPageNo - 1)
  have hnum := zeroFile_numPages (n := maxPageNo - 1) (Nat.sub_le _ _)
  exact ⟨hlegible, hnum, (append_keeps_iff hlegible hnum (Nat.le_refl _)).2 fun hpast =>
    absurd hpast.1 (by decide)⟩

/-- **A file with as many pages as a page number can count is grown by one, and then it has no number of
pages, and no page of it can be read.** -/
theorem append_past_ceiling :
    (zeroPages maxPageNo).Legible zeroFile.file ∧ ((zeroPages maxPageNo).bytes "t").size % pageSize = 0 ∧
    zeroFile.numPages (zeroPages maxPageNo) = .ok maxPageNo ∧
    zeroFile.readPage (zeroPages maxPageNo) ⟨⟨1⟩, 0⟩ = .ok (Page.empty ⟨⟨1⟩, 0⟩) ∧
    (zeroFile.append (zeroPages maxPageNo) maxPageNo).2 = .ok () ∧
    zeroFile.numPages (zeroFile.append (zeroPages maxPageNo) maxPageNo).1 = .error .fileTooLarge ∧
    zeroFile.readPage (zeroFile.append (zeroPages maxPageNo) maxPageNo).1 ⟨⟨1⟩, 0⟩ = .error .fileTooLarge := by
  have hlegible := zeroFile_legible maxPageNo
  have hpages := zeroFile_pagesOn maxPageNo
  have hnum := zeroFile_numPages (Nat.le_refl maxPageNo)
  obtain ⟨d', hw, hfaults, hbytes⟩ := Disk.writeAt_of_faultless (r := zeroFile.file) (b := PageData.zeros.bytes)
    (zeroPages_faultless maxPageNo) (by rw [PageData.zeros.size_eq]; decide)
    (by rw [PageData.zeros.size_eq]; exact Tables.offset_lt (p := ⟨zeroFile.table, maxPageNo⟩) (Nat.le_refl _))
  have hlegible' : d'.Legible zeroFile.file :=
    Disk.legible_of_faultless (hfaults _ (zeroPages_faultless maxPageNo))
  have hgone : zeroFile.numPages d' = .error .fileTooLarge :=
    numPages_past_ceiling hlegible' hpages PageData.zeros (by rw [hbytes, if_pos rfl])
  have happend : zeroFile.append (zeroPages maxPageNo) maxPageNo = (d', .ok ()) :=
    (append_of_counted hnum).trans hw
  refine ⟨hlegible, ?_, hnum, ?_, ?_, ?_, ?_⟩
  · rw [zeroPages_bytes, Bytes.size_zeros, Nat.mul_mod_left]
  · refine (readPage_eq_ok_iff hlegible).2 ⟨rfl, Nat.le_of_eq hpages, by rw [hpages]; decide, ?_⟩
    have hzeros : PageData.ofBytes ((zeroPages maxPageNo).bytes "t") 0 = PageData.zeros := by
      refine PageData.ext_byte fun i hi => ?_
      rw [PageData.byte_ofBytes, PageData.byte_zeros, zeroPages_bytes, Bytes.byte_zeros, ite_self]
    exact (congrArg (Page.ofData ⟨⟨1⟩, 0⟩) hzeros).symm
  · rw [happend]
  · rw [happend, hgone]
  · rw [happend, readPage, if_neg (by simp [zeroFile]), hgone]

end HeapFile

end PageEngine
