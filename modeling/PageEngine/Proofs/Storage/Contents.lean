import PageEngine.Proofs.Storage.Files
import PageEngine.Store

/-!
# `Proofs/Storage/Contents.lean` — what the stores hold, page by page

`Tables.contents` is the map from pages to bytes that the registered stores stand for, and
`Tables.pages` their number of pages. This file says what each operation on the storage does to the two
where every table has a heap file of its own and no call on a file fails (`Tables.Sound`):

> **a write changes the contents of its page and of no other**, a read gives the contents, and growing
> adds one page of zeros.
-/

set_option autoImplicit false

namespace PageEngine

open Std

namespace HeapFile

/-- The number of whole pages in the file. -/
def pagesOn (h : HeapFile) (d : Disk) : Nat := (d.bytes h.file.name).size / pageSize

theorem numPages_le {h : HeapFile} {d : Disk} {n : Nat} (hn : h.numPages d = .ok n) : n ≤ maxPageNo := by
  unfold numPages at hn
  split at hn
  · cases hn
  · split at hn
    · rename_i hle
      rwa [Except.ok.inj hn] at hle
    · cases hn

/-- The pages are counted, if the length is reported and page numbers can name them. -/
theorem numPages_of_candid {h : HeapFile} {d : Disk} (hc : d.Candid h.file) (hmax : h.pagesOn d ≤ maxPageNo) :
    (d.Blind h.file ∧ h.numPages d = .error diskUnavailable) ∨ h.numPages d = .ok (h.pagesOn d) := by
  unfold numPages
  rcases Disk.len_of_candid hc with ⟨hblind, hlen⟩ | hlen
  · exact .inl ⟨hblind, by rw [hlen]⟩
  · exact .inr (by rw [hlen]; exact if_pos hmax)

/-- Past the last page number they are not counted. -/
theorem numPages_of_many {h : HeapFile} {d : Disk} (hc : d.Candid h.file) (hmax : maxPageNo < h.pagesOn d) :
    (d.Blind h.file ∧ h.numPages d = .error diskUnavailable) ∨ h.numPages d = .error .fileTooLarge := by
  unfold numPages
  rcases Disk.len_of_candid hc with ⟨hblind, hlen⟩ | hlen
  · exact .inl ⟨hblind, by rw [hlen]⟩
  · exact .inr (by rw [hlen]; exact if_neg (Nat.not_le.2 hmax))

theorem id_of_readPage {h : HeapFile} {d : Disk} {p : PageId} {x : Page} (hx : h.readPage d p = .ok x) : x.id = p := by
  unfold readPage Page.ofBytes at hx
  repeat' split at hx
  all_goals cases hx
  rfl

end HeapFile

namespace Tables

/-- The bytes of the file that backs a table. -/
def bytesOf (d : Tables) (t : TableId) : Bytes :=
  match d.catalog[t]? with
  | some s => d.disk.bytes s.file.file.name
  | none => #[]

/-- What the store of its table holds for a page: zeros past the end of the file. -/
def contents (d : Tables) (p : PageId) : PageData := PageData.ofBytes (d.bytesOf p.table) p.offset

def pages (d : Tables) (t : TableId) : Nat := (d.bytesOf t).size / pageSize

/-- The page is one of its table. -/
def HasPage (d : Tables) (p : PageId) : Prop := p.pageNo < d.pages p.table ∧ p.pageNo ≤ maxPageNo

/-- Every table is backed by a heap file, every file backs one table, and no call on a file fails. -/
structure Sound (d : Tables) : Prop where
  heap : ∀ (t : TableId) (s : Store), d.catalog[t]? = some s → ∃ h, s = .heap h ∧ h.table = t
  faultless : ∀ (t : TableId) (s : Store), d.catalog[t]? = some s →
    d.disk.Faultless s.file.file.name
  /-- A page is changed under no other name. -/
  apart : ∀ (t u : TableId) (s r : Store), d.catalog[t]? = some s → d.catalog[u]? = some r →
    s.file.file.name = r.file.file.name → t = u

theorem bytesOf_of_heap {d : Tables} {t : TableId} {h : HeapFile}
    (hs : d.catalog[t]? = some (.heap h)) : d.bytesOf t = d.disk.bytes h.file.name := by
  simp only [bytesOf, hs, Store.file]

theorem pages_of_heap {d : Tables} {t : TableId} {h : HeapFile} (hs : d.catalog[t]? = some (.heap h)) :
    d.pages t = h.pagesOn d.disk := by
  rw [pages, bytesOf_of_heap hs, HeapFile.pagesOn]

theorem store_of_heap {d : Tables} {t : TableId} {h : HeapFile}
    (hs : d.catalog[t]? = some (.heap h)) : d.store t = .ok (.heap h) := by
  simp only [store, hs]

/-- Every store that is found is a heap file. -/
theorem Sound.heap_of_store {d : Tables} (hd : d.Sound) {t : TableId} {s : Store}
    (hs : d.store t = .ok s) : ∃ h, s = .heap h ∧ d.catalog[h.table]? = some (.heap h) := by
  unfold store at hs
  split at hs
  · rename_i r hr
    rw [Except.ok.injEq] at hs
    subst hs
    obtain ⟨h, rfl, ht⟩ := hd.heap _ _ hr
    exact ⟨h, rfl, by rw [ht]; exact hr⟩
  · cases hs

/-- A table with pages has a heap file. -/
theorem Sound.heap_of_lt {d : Tables} (hd : d.Sound) {p : PageId} (hlt : p.pageNo < d.pages p.table) :
    ∃ h, d.catalog[p.table]? = some (.heap h) ∧ h.table = p.table := by
  cases hs : d.catalog[p.table]? with
  | none => simp [pages, bytesOf, hs] at hlt
  | some s =>
    obtain ⟨h, rfl, ht⟩ := hd.heap _ _ hs
    exact ⟨h, rfl, ht⟩

theorem HasPage.registered {d : Tables} {p : PageId} (hd : d.Sound) (hp : d.HasPage p) :
    ∃ h, d.catalog[p.table]? = some (.heap h) ∧ h.table = p.table :=
  hd.heap_of_lt hp.1

theorem Sound.of_disk {d : Tables} (hd : d.Sound) {disk : Disk}
    (hf : ∀ name, d.disk.Faultless name → disk.Faultless name) : Sound { d with disk } where
  heap := hd.heap
  faultless t s hs := hf _ (hd.faultless t s hs)
  apart := hd.apart

theorem offset_lt {p : PageId} (hp : p.pageNo ≤ maxPageNo) :
    p.offset + pageSize < systemOffsetLimit := by
  simp only [PageId.offset, pageSize, maxPageNo, UInt32.size, systemOffsetLimit] at *
  omega

/-- Two pages of one table do not overlap. -/
theorem offset_apart {p q : PageId} (ht : q.table = p.table) (hne : q ≠ p) :
    q.offset + pageSize ≤ p.offset ∨ p.offset + pageSize ≤ q.offset := by
  have hno : q.pageNo ≠ p.pageNo := by
    intro hno
    apply hne
    cases p
    cases q
    simp_all
  simp only [PageId.offset, pageSize]
  omega

/-! ## Reading -/

theorem numPages_of_heap {d : Tables} (hd : d.Sound) {t : TableId} {h : HeapFile}
    (hs : d.catalog[t]? = some (.heap h)) :
    h.numPages d.disk =
      if d.pages t ≤ maxPageNo then .ok (d.pages t) else .error .fileTooLarge := by
  have hlen := Disk.len_of_faultless (r := h.file) (hd.faultless t _ hs)
  simp only [HeapFile.numPages, hlen, pages, bytesOf_of_heap hs]

theorem readAt_of_heap {d : Tables} (hd : d.Sound) {t : TableId} {h : HeapFile}
    (hs : d.catalog[t]? = some (.heap h)) (off len : Nat) :
    d.disk.readAt h.file off len = (d.disk.file h.file.name).file.readAt off len :=
  Disk.readAt_of_faultless (r := h.file) (hd.faultless t _ hs) off len

/-- **A page that is read is a clean page with the contents of the store**, whatever calls on files fail. -/
theorem readPage_ok {d : Tables} {p : PageId} {page : Page} (h : d.readPage p = .ok page) :
    page = Page.ofData p (d.contents p) ∧ d.HasPage p := by
  unfold readPage at h
  split at h
  · cases h
  rename_i s hs
  have hcat : d.catalog[p.table]? = some s := by
    unfold store at hs
    split at hs
    · rename_i r hr
      rw [hr, Except.ok.inj hs]
    · cases hs
  have hbytes : d.bytesOf p.table = d.disk.bytes s.file.file.name := by simp only [bytesOf, hcat]
  unfold HeapFile.readPage at h
  split at h
  · cases h
  split at h
  · cases h
  rename_i n hn
  split at h
  · cases h
  rename_i hno
  split at h
  · cases h
  rename_i bytes hread
  obtain ⟨hb, hin⟩ := Disk.readAt_ok hread (by decide)
  have hmax := HeapFile.numPages_le hn
  have hsize : bytes.size = pageSize := by rw [hb, Bytes.size_slice]
  rw [Page.ofBytes, dif_pos hsize, Except.ok.injEq] at h
  refine ⟨?_, ?_, by omega⟩
  · rw [← h]
    congr 1
    apply PageData.ext_bytes
    simp only [contents, hbytes]
    exact hb
  · show p.pageNo < (d.bytesOf p.table).size / pageSize
    rw [hbytes]
    simp only [PageId.offset, pageSize] at *
    omega

/-- Every page of a table that is not too large can be read. -/
theorem readPage_eq {d : Tables} (hd : d.Sound) {p : PageId} (hp : p.pageNo < d.pages p.table)
    (hmax : d.pages p.table ≤ maxPageNo) : d.readPage p = .ok (Page.ofData p (d.contents p)) := by
  obtain ⟨f, hs, ht⟩ := HasPage.registered hd (p := p) ⟨hp, by omega⟩
  have hin : p.offset + pageSize ≤ (d.disk.file f.file.name).file.len := by
    simp only [pages, bytesOf_of_heap hs, Disk.bytes] at hp
    simp only [PageId.offset, pageSize, File.len] at *
    omega
  have hread := File.readAt_inside hin (offset_lt (p := p) (by omega))
  have hslice : ((d.disk.file f.file.name).file.bytes.slice p.offset pageSize).size = pageSize :=
    Bytes.size_slice _ _ _
  simp only [readPage, store_of_heap hs, Store.file, HeapFile.readPage, ht, ne_eq,
    not_true_eq_false, if_false, numPages_of_heap hd hs, if_pos hmax, if_neg (Nat.not_le.2 hp),
    readAt_of_heap hd hs, hread, Page.ofBytes, dif_pos hslice]
  simp only [contents, bytesOf_of_heap hs]
  rfl

/-- No page of a table that is too large can be read. -/
theorem readPage_of_many {d : Tables} (hd : d.Sound) {p : PageId} (hmax : maxPageNo < d.pages p.table) :
    d.readPage p = .error .fileTooLarge := by
  cases hs : d.catalog[p.table]? with
  | none => simp [pages, bytesOf, hs] at hmax
  | some s =>
    obtain ⟨f, rfl, ht⟩ := hd.heap p.table s hs
    simp only [readPage, store_of_heap hs, Store.file, HeapFile.readPage, ht, ne_eq, not_true_eq_false, if_false,
      numPages_of_heap hd hs, if_neg (Nat.not_le.2 hmax)]

/-! ## Writing -/

/-- `d'` is `d` with other contents of the page `p`, which is at most one past the end of its table. -/
structure Rewritten (d d' : Tables) (p : PageId) (data : PageData) : Prop where
  sound : d'.Sound
  catalog : d'.catalog = d.catalog
  contents : ∀ q, d'.contents q = if q = p then data else d.contents q
  pages : ∀ t, d'.pages t = if t = p.table then max (d.pages t) (p.pageNo + 1) else d.pages t

/-- **Bytes written at the place of a page become its contents, and nothing else changes.** -/
theorem rewritten_of_heap {d : Tables} (hd : d.Sound) {p : PageId} {f : HeapFile}
    (hs : d.catalog[p.table]? = some (.heap f)) (hp : p.pageNo ≤ maxPageNo) (data : PageData) :
    ∃ disk, d.disk.writeAt f.file p.offset data.bytes = (disk, .ok ()) ∧
      Rewritten d { d with disk } p data := by
  have hlim := offset_lt hp
  obtain ⟨disk, hw, hfaults, hbytes⟩ := Disk.writeAt_of_faultless (r := f.file)
    (hd.faultless _ _ hs) (b := data.bytes) (by rw [data.size_eq]; decide)
    (by rw [data.size_eq]; exact hlim)
  have hself : bytesOf { d with disk } p.table =
      (d.bytesOf p.table).overlay p.offset data.bytes := by
    rw [bytesOf_of_heap (d := { d with disk }) hs, bytesOf_of_heap hs, hbytes, if_pos rfl]
  have hother : ∀ t, t ≠ p.table → bytesOf { d with disk } t = d.bytesOf t := by
    intro t ht
    cases hr : d.catalog[t]? with
    | none => simp only [bytesOf, hr]
    | some s =>
      have hname : s.file.file.name ≠ f.file.name := fun he => ht (hd.apart _ _ _ _ hr hs he)
      simp only [bytesOf, hr, hbytes, if_neg hname]
  refine ⟨disk, hw, hd.of_disk hfaults, rfl, ?_, ?_⟩
  · intro q
    by_cases hq : q = p
    · rw [hq, if_pos rfl, Tables.contents, hself, PageData.ofBytes_overlay_self]
    · rw [if_neg hq, Tables.contents, Tables.contents]
      by_cases ht : q.table = p.table
      · rw [ht, hself, PageData.ofBytes_overlay_other _ _ (offset_apart ht hq)]
      · rw [hother _ ht]
  · intro t
    by_cases ht : t = p.table
    · rw [ht, if_pos rfl, Tables.pages, Tables.pages, hself, Bytes.size_overlay, data.size_eq]
      simp only [PageId.offset, pageSize]
      omega
    · rw [if_neg ht, Tables.pages, Tables.pages, hother _ ht]

theorem Rewritten.hasPage {d d' : Tables} {p : PageId} {data : PageData}
    (h : Rewritten d d' p data) {q : PageId} (hq : d.HasPage q) : d'.HasPage q := by
  refine ⟨?_, hq.2⟩
  rw [h.pages]
  have hlt := hq.1
  split
  · omega
  · exact hlt

theorem writePage_spec {d : Tables} (hd : d.Sound) {x : Page} (hp : d.HasPage x.id) :
    ∃ d', d.writePage x = (d', .ok ()) ∧ Rewritten d d' x.id x.data := by
  obtain ⟨f, hs, ht⟩ := hp.registered hd
  obtain ⟨disk, hw, hrw⟩ := rewritten_of_heap hd hs hp.2 x.data
  refine ⟨_, ?_, hrw⟩
  simp only [writePage, store_of_heap hs, Store.file, HeapFile.writePage, ht, ne_eq,
    not_true_eq_false, if_false, hw]

/-- **Growing adds a page of zeros**, if nobody else has grown the file. -/
theorem append_ok {d : Tables} (hd : d.Sound) {f : HeapFile}
    (hs : d.catalog[f.table]? = some (.heap f)) {seen : Nat} (hseen : d.pages f.table ≤ seen)
    (hmax : d.pages f.table ≤ maxPageNo) :
    ∃ disk, f.append d.disk seen = (disk, .ok ()) ∧
      Rewritten d { d with disk } ⟨f.table, d.pages f.table⟩ PageData.zeros := by
  obtain ⟨disk, hw, hrw⟩ := rewritten_of_heap hd (p := ⟨f.table, d.pages f.table⟩) hs hmax
    PageData.zeros
  refine ⟨disk, ?_, hrw⟩
  simp only [HeapFile.append, numPages_of_heap hd hs, if_pos hmax, if_neg (Nat.not_lt.2 hseen),
    HeapFile.writePage, Page.empty, Page.ofData, ne_eq, not_true_eq_false, if_false]
  exact hw

/-- Growing a file fails and changes nothing, finds that somebody else has grown it, or adds a page of
zeros. -/
theorem append_cases {d : Tables} (hd : d.Sound) {t : TableId} {f : HeapFile}
    (hs : d.catalog[t]? = some (.heap f)) (ht : f.table = t) (seen : Nat) :
    (∃ e, f.append d.disk seen = (d.disk, .error e)) ∨
    (seen < d.pages t ∧ f.append d.disk seen = (d.disk, .ok ())) ∨
    (d.pages t ≤ seen ∧ d.pages t ≤ maxPageNo ∧
      ∃ disk, f.append d.disk seen = (disk, .ok ()) ∧
        Rewritten d { d with disk } ⟨t, d.pages t⟩ PageData.zeros) := by
  subst ht
  by_cases hmax : d.pages f.table ≤ maxPageNo
  · by_cases hseen : seen < d.pages f.table
    · refine .inr (.inl ⟨hseen, ?_⟩)
      simp only [HeapFile.append, numPages_of_heap hd hs, if_pos hmax, if_pos hseen]
    · exact .inr (.inr ⟨Nat.not_lt.1 hseen, hmax, append_ok hd hs (Nat.not_lt.1 hseen) hmax⟩)
  · refine .inl ⟨.fileTooLarge, ?_⟩
    simp only [HeapFile.append, numPages_of_heap hd hs, if_neg hmax]

structure SameContents (d d' : Tables) : Prop where
  sound : d'.Sound
  catalog : d'.catalog = d.catalog
  bytesOf : ∀ t, d'.bytesOf t = d.bytesOf t

theorem SameContents.contents {d d' : Tables} (h : SameContents d d') (p : PageId) :
    d'.contents p = d.contents p := by
  rw [Tables.contents, Tables.contents, h.bytesOf]

theorem SameContents.pages {d d' : Tables} (h : SameContents d d') (t : TableId) :
    d'.pages t = d.pages t := by
  rw [Tables.pages, Tables.pages, h.bytesOf]

theorem syncTable_same {d : Tables} (hd : d.Sound) (t : TableId) :
    SameContents d (d.syncTable t).1 := by
  cases hs : d.catalog[t]? with
  | none =>
    simp only [syncTable, store, hs]
    exact ⟨hd, rfl, fun _ => rfl⟩
  | some s =>
    obtain ⟨disk, hsync, hfaults, hbytes⟩ :=
      Disk.sync_of_faultless (r := s.file.file) (hd.faultless _ _ hs)
    have heq : d.syncTable t = ({ d with disk }, .ok ()) := by
      simp only [syncTable, store, hs, HeapFile.sync, hsync]
    rw [heq]
    refine ⟨hd.of_disk hfaults, rfl, ?_⟩
    intro u
    cases hr : d.catalog[u]? with
    | none => simp only [Tables.bytesOf, hr]
    | some s => simp only [Tables.bytesOf, hr, hbytes]

/-- Syncing a table that has a store does not fail. -/
theorem syncTable_ok {d : Tables} (hd : d.Sound) {t : TableId} {s : Store}
    (hs : d.catalog[t]? = some s) : (d.syncTable t).2 = .ok () := by
  obtain ⟨disk, hsync, -, -⟩ := Disk.sync_of_faultless (r := s.file.file) (hd.faultless _ _ hs)
  simp only [syncTable, store, hs, HeapFile.sync, hsync]

/-! ## Registering -/

/-- A heap file that can be registered: its table has no store, no call on its file fails, and the file
backs no other table. -/
structure Fresh (d : Tables) (h : HeapFile) : Prop where
  table : d.catalog[h.table]? = none
  faultless : d.disk.Faultless h.file.name
  apart : ∀ (t : TableId) (s : Store), d.catalog[t]? = some s → s.file.file.name ≠ h.file.name

theorem catalog_register (d : Tables) (h : HeapFile) (t : TableId) :
    (d.register (.heap h)).catalog[t]? = if t = h.table then some (.heap h) else d.catalog[t]? := by
  simp only [register, Store.table, Store.file, ExtTreeMap.getElem?_insert, Std.compare_eq_iff_eq]
  simp only [eq_comm (a := t)]

theorem Sound.register {d : Tables} (hd : d.Sound) {h : HeapFile} (hf : d.Fresh h) :
    (d.register (.heap h)).Sound where
  heap t s hs := by
    rw [catalog_register] at hs
    split at hs
    · rename_i ht
      exact ⟨h, (Option.some.inj hs).symm, ht.symm⟩
    · exact hd.heap t s hs
  faultless t s hs := by
    rw [catalog_register] at hs
    split at hs
    · rw [← Option.some.inj hs]
      exact hf.faultless
    · exact hd.faultless t s hs
  apart t u s r hs hr hname := by
    rw [catalog_register] at hs hr
    by_cases ht : t = h.table
    · by_cases hu : u = h.table
      · exact ht.trans hu.symm
      · rw [if_pos ht, Option.some.injEq] at hs
        rw [if_neg hu] at hr
        rw [← hs] at hname
        exact absurd hname.symm (hf.apart u r hr)
    · rw [if_neg ht] at hs
      by_cases hu : u = h.table
      · rw [if_pos hu, Option.some.injEq] at hr
        rw [← hr] at hname
        exact absurd hname (hf.apart t s hs)
      · rw [if_neg hu] at hr
        exact hd.apart t u s r hs hr hname

/-- **Registering a heap file puts the bytes of its file under its table.** -/
theorem bytesOf_register {d : Tables} {h : HeapFile} (t : TableId) :
    (d.register (.heap h)).bytesOf t =
      if t = h.table then d.disk.bytes h.file.name else d.bytesOf t := by
  by_cases ht : t = h.table
  · simp only [bytesOf, catalog_register, if_pos ht, Store.file]
    rfl
  · simp only [bytesOf, catalog_register, if_neg ht]
    rfl

theorem pages_register {d : Tables} {h : HeapFile} {t : TableId} (ht : t ≠ h.table) :
    (d.register (.heap h)).pages t = d.pages t := by
  rw [pages, bytesOf_register, if_neg ht, pages]

theorem contents_register {d : Tables} {h : HeapFile} {p : PageId} (hp : p.table ≠ h.table) :
    (d.register (.heap h)).contents p = d.contents p := by
  rw [contents, bytesOf_register, if_neg hp, contents]

/-- A table with pages is registered already. -/
theorem Fresh.table_ne {d : Tables} (hd : d.Sound) {h : HeapFile} (hf : d.Fresh h) {t : TableId}
    (ht : 0 < d.pages t) : t ≠ h.table := by
  rintro rfl
  obtain ⟨x, hx, -⟩ := hd.heap_of_lt (p := ⟨h.table, 0⟩) ht
  rw [hf.table] at hx
  cases hx

end Tables

end PageEngine
