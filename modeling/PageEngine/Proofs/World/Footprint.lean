import PageEngine.Proofs.Storage.Ceiling
import PageEngine.Proofs.World.Probing
import PageEngine.Proofs.World.Snapshot

/-!
# `Proofs/World/Footprint.lean` — what an insert holds and what it leaves

An insert locks pages as it goes and gives most of them back. Run alone at any pool, over files of which any
call may fail, with any locks of others in its way:

> **an insert that succeeds holds the page of its row besides what it held before, and nothing else**; one
> that fails has changed no page, and holds what it held before and at most the page that it could not fetch.

An insert that fails may have appended a page of zeros. That it has appended one at most is not true in
general: a table can be given another, shorter file while pages of the longer one are in the cache, and then an
appended page can have a number under which the cache holds a full page of the old file. The insert passes that
page, and appends another one (`two_pages_appended`). Where the cache holds no page past the end of the file, one
page is all.
-/

set_option autoImplicit false

namespace PageEngine

open Std

namespace Solo

section Insert

variable {h : HeapFile} {t : TxnId} {row : Tuple} {P Q : Pool Tables} {c : Call}

/-- What an insert that fails leaves of a pool. -/
structure Declined (h : HeapFile) (P Q : Pool Tables) : Prop where
  /-- No image has changed, dirty pages are where they were, and images that came in hold what the file does. -/
  browsed : P.Browsed h Q
  /-- Pages of zeros were appended. Each of them but the last has the number of a page that was in the cache, so
  that it is one page at most if the cache held no page past the end of the file. -/
  longer : ∃ k, P.storage.Longer h k Q.storage ∧
    (∀ j, j + 1 < k → (P.resident[(⟨h.table, P.storage.pages h.table + j⟩ : PageId)]?).isSome) ∧
    ((∀ (p : PageId) (f : FrameId), P.resident[p]? = some f → p.table = h.table →
      p.pageNo < P.storage.pages h.table) → k ≤ 1)

theorem declined_of_probed (hq : P.Probed h Q) : Declined h P Q := by
  obtain ⟨k, hk⟩ := hq.longer
  have hstale : ∀ j, j + 1 < k → (P.resident[(⟨h.table, P.storage.pages h.table + j⟩ : PageId)]?).isSome := by
    intro j hj
    refine hq.stale _ (Nat.le_add_right _ _) ?_
    rw [hk.pages]
    omega
  refine ⟨hq.browsed, k, hk, hstale, fun hwithin => ?_⟩
  by_contra hmany
  obtain ⟨f, hf⟩ := Option.isSome_iff_exists.1 (hstale 0 (by omega))
  exact absurd (hwithin _ f hf rfl) (Nat.lt_irrefl _)

theorem probing_ofRequest (hpos : 0 < P.capacity) (hP : P.Bounded P.capacity) (hL : P.locks.Consistent)
    (hcandid : P.storage.disk.Candid h.file) (t : TxnId) (row : Tuple) :
    Probing h t row P P (Call.ofRequest t (.insert h.table row)) := by
  refine ⟨rfl, rfl, rfl, ⟨hpos, hP, hL, hcandid, .refl h P, ⟨0, .refl h _⟩, fun j hj hlt => ?_⟩,
    ⟨row, rfl⟩, rfl⟩
  omega

/-- **What an insert holds and what it leaves**, at every pool to which operations lead. -/
theorem insert_footprint {capacity : Nat} {draws : Draws} {d : Tables} {P₀ : Pool Tables}
    (hP₀ : Pool.create capacity draws d = .ok P₀) (hP : P₀.Reaches P) (hL : P.locks.Reachable)
    (hcat : P.storage.catalog[h.table]? = some (.heap h)) (hcandid : P.storage.disk.Candid h.file) {s : Solo}
    (hrun : Leads { pool := P, call := .ofRequest t (.insert h.table row) } s) (hopen : s.call.result? = none) :
    (∀ a, s.step.call.result? = some (.ok a) → ∃ r, s.step.call.tuple.recordId = some r ∧
      r.page.table = h.table ∧ s.step.pool.locks.heldSet t = (P.locks.heldSet t).insert r.page) ∧
    ∀ e, s.step.call.result? = some (.error e) → s.step.call.tuple = row ∧ Declined h P s.step.pool ∧
      (s.step.pool.locks.heldSet t = P.locks.heldSet t ∨
        ∃ p i, s.call.activity = .fetching p (.place i) ∧
          s.step.pool.locks.heldSet t = (P.locks.heldSet t).insert p) := by
  obtain ⟨hpos, hbounded₀⟩ := Pool.bounded_create hP₀
  have hbounded := hP.bounded Pool.readsOwn_tables hpos hbounded₀
  have hcapacity := hbounded.capacity
  have hstart := probing_ofRequest (h := h) (hcapacity ▸ hpos) (hcapacity ▸ hbounded) hL.inv.1 hcandid t row
  have hlanded : Landed h t P s.step.pool s.step.call → ∀ e, s.step.call.result? ≠ some (.error e) := by
    intro hl e he
    rcases hl.rest with ⟨f, hact, -⟩ | hact | hact <;> simp [Call.result?, hact] at he
  rcases hrun.of_insert hbounded.filed hcat hstart with hc | hc | ⟨e, he⟩
  · rcases hc.step hbounded.filed hcat with hnext | hnext | hnext
    · -- It has not ended yet.
      have hnone : s.step.call.result? = none := by
        have hstage := hnext.stage
        unfold Call.result?
        split
        · rename_i r hact
          rw [show (s.call.step s.pool).2.activity = .finished r from hact] at hstage
          exact hstage.elim
        · rfl
      exact ⟨fun a ha => by simp [hnone] at ha, fun e he => by simp [hnone] at he⟩
    · exact ⟨fun a _ => hnext.placed, fun e he => absurd he (hlanded hnext e)⟩
    · obtain ⟨e', he'⟩ := hnext.result
      have hresult : s.step.call.result? = some (.error e') := by
        unfold Call.result?
        rw [show s.step.call.activity = .finished (.error e') from he']
      refine ⟨fun a ha => ?_, fun e _ => ⟨hnext.tuple, declined_of_probed hnext.probed, hnext.held⟩⟩
      rw [hresult] at ha
      cases ha
  · exact ⟨fun a _ => hc.step.placed, fun e he => absurd he (hlanded hc.step e)⟩
  · simp [Call.result?, he] at hopen

end Insert

/-! ## A table that is given a shorter file -/

section PastFull

variable {h : HeapFile} {t : TxnId} {row : Tuple} {P Q R : Pool Tables} {f : FrameId} {e : Error}
  {disk disk' : Disk} {L L' M : LockTable}

theorem leads_run (s : Solo) : ∀ n, Leads s (s.run n) := by
  have hrun : ∀ (n : Nat) (s' : Solo), Leads s s' → Leads s (s'.run n) := by
    intro n
    induction n with
    | zero => exact fun _ hs => hs
    | succ n ih => exact fun s' hs => ih s'.step hs.step
  exact fun n => hrun n s .refl

/-- An insert that finds the file empty and appends a page, finds the page under that number full, and appends
another page, which it cannot fetch. -/
theorem insert_past_full (hcat : P.storage.catalog[h.table]? = some (.heap h))
    (hsize : row.data.size = h.layout.width) (hnum : h.numPages P.storage.disk = .ok 0)
    (happ : h.append P.storage.disk 0 = (disk, .ok ())) (hnum₁ : h.numPages disk = .ok 1)
    (hfree : P.locks.holds ⟨h.table, 0⟩ t = false)
    (hgrant : P.locks.attempt ⟨h.table, 0⟩ t .exclusive = (L, .granted))
    (hfetch : (({ P with storage := { P.storage with disk } } : Pool Tables).withLocks L).fetch ⟨h.table, 0⟩ =
      (Q, .ok f))
    (hfull : h.layout.freeSlot (Q.page f).data = none)
    (hrelease : Q.locks.release ⟨h.table, 0⟩ t = (L', .ok ()))
    (happ₁ : h.append Q.storage.disk 1 = (disk', .ok ())) (hnum₂ : h.numPages disk' = .ok 2)
    (hgrant₁ : L'.attempt ⟨h.table, 1⟩ t .exclusive = (M, .granted))
    (hfetch₁ : (({ Q with storage := { Q.storage with disk := disk' } } : Pool Tables).withLocks M).fetch
      ⟨h.table, 1⟩ = (R, .error e)) :
    (run { pool := P, call := .ofRequest t (.insert h.table row) } 11).call.result? = none ∧
    (run { pool := P, call := .ofRequest t (.insert h.table row) } 11).step.pool = R ∧
    (run { pool := P, call := .ofRequest t (.insert h.table row) } 11).step.call.result? = some (.error e) := by
  simp only [Pool.withLocks] at hfetch hfetch₁
  simp [run, step, Call.ofRequest, Call.step, Call.start, Call.startInsert, Call.tryNext, Call.goOn,
    Call.attemptLock, Call.useFrame, Call.place, Call.fail, Call.finish, Call.result?, Tables.store,
    Insertion.page, Pool.releasePage, Pool.withLocks, hcat, hsize, hnum, happ, hnum₁, hfree, hgrant, hfetch,
    hfull, hrelease, happ₁, hnum₂, hgrant₁, hfetch₁]

end PastFull

/-- Reads of the file fail, and nothing else. -/
def Unreadable (h : HeapFile) (d : Disk) : Prop := (d.view h.file).faults = { read := true }

theorem Unreadable.candid {h : HeapFile} {d : Disk} (hd : Unreadable h d) : d.Candid h.file := by
  rw [Disk.Candid, hd]

theorem Unreadable.numPages {h : HeapFile} {d : Tables} (hd : Unreadable h d.disk)
    (hcat : d.catalog[h.table]? = some (.heap h)) (hmax : d.pages h.table ≤ maxPageNo) :
    h.numPages d.disk = .ok (d.pages h.table) := by
  have hlen : d.disk.len h.file = .ok (d.disk.bytes h.file.name).size := by
    rw [Disk.len, FaultyFile.len, show (d.disk.view h.file).faults = _ from hd, Disk.file_view]
    rfl
  rw [Tables.pages_of_heap hcat] at hmax ⊢
  rw [HeapFile.numPages, hlen]
  exact if_pos hmax

/-- A file that cannot be read can be grown. -/
theorem Unreadable.append {h : HeapFile} {d : Tables} (hd : Unreadable h d.disk)
    (hcat : d.catalog[h.table]? = some (.heap h)) (hmax : d.pages h.table ≤ maxPageNo) :
    ∃ disk, h.append d.disk (d.pages h.table) = (disk, .ok ()) ∧ Unreadable h disk ∧
      Tables.Appended h d { d with disk } := by
  have hwrite := HeapFile.append_of_counted (hd.numPages hcat hmax)
  have hlim := Tables.offset_lt (p := ⟨h.table, d.pages h.table⟩) hmax
  have hok : ((d.disk.view h.file).file.writeAt (PageId.offset ⟨h.table, d.pages h.table⟩)
      PageData.zeros.bytes).2 = .ok () :=
    (File.writeAt_inside (by rw [PageData.zeros.size_eq]; decide) (by rw [PageData.zeros.size_eq]; exact hlim)).1
  have hview := d.disk.view_writeAt h.file (PageId.offset ⟨h.table, d.pages h.table⟩) PageData.zeros.bytes
  rw [← hwrite] at hview
  rcases Tables.append_of_candid hcat hd.candid hmax with ⟨-, disk, happ⟩ | ⟨disk, happ, hgrown⟩
  · rw [hwrite] at happ
    have hresult := congrArg Prod.snd happ
    simp [Disk.writeAt, FaultyFile.writeAt, show (d.disk.view h.file).faults = _ from hd, hok] at hresult
  · refine ⟨disk, happ, ?_, hgrown⟩
    rw [happ] at hview
    rw [Unreadable, hview]
    simp [FaultyFile.writeAt, show (d.disk.view h.file).faults = _ from hd]

/-- None of its pages can be read. -/
theorem Unreadable.readPage {h : HeapFile} {d : Tables} (hd : Unreadable h d.disk)
    (hcat : d.catalog[h.table]? = some (.heap h)) (hmax : d.pages h.table ≤ maxPageNo) {n : Nat}
    (hn : n < d.pages h.table) : d.readPage ⟨h.table, n⟩ = .error diskUnavailable := by
  have hread : d.disk.readAt h.file (PageId.offset ⟨h.table, n⟩) pageSize = .error diskUnavailable := by
    rw [Disk.readAt, FaultyFile.readAt, show (d.disk.view h.file).faults = _ from hd]
    rfl
  simp only [Tables.readPage, Tables.store_of_heap (d := d) hcat, Store.file, HeapFile.readPage,
    hd.numPages hcat hmax, ne_eq, not_true_eq_false, if_false, if_neg (Nat.not_le.2 hn), hread]

/-- **An insert into an empty file that cannot be read appends two pages before it fails**, if the cache holds
under the number of the first one a page that is full, and nobody holds a lock on either. -/
theorem two_pages_of_stale {h : HeapFile} {P : Pool Tables} {f : FrameId} {row : Tuple} (t : TxnId)
    (hcat : P.storage.catalog[h.table]? = some (.heap h)) (hd : Unreadable h P.storage.disk)
    (hempty : P.storage.pages h.table = 0) (hsize : row.data.size = h.layout.width)
    (hlocks : P.locks.Consistent) (hfree : ∀ n u, P.locks.modeOf ⟨h.table, n⟩ u = none)
    (hcached : P.resident[(⟨h.table, 0⟩ : PageId)]? = some f) (hfull : h.layout.freeSlot (P.page f).data = none)
    (hnone : P.resident[(⟨h.table, 1⟩ : PageId)]? = none) :
    ∃ s, Leads { pool := P, call := .ofRequest t (.insert h.table row) } s ∧ s.call.result? = none ∧
      s.step.call.result? = some (.error diskUnavailable) ∧ s.step.pool.storage.pages h.table = 2 := by
  -- The first page comes to stand under the number of the full one,
  obtain ⟨disk, happ, hd₁, hgrown⟩ := hd.append hcat (by rw [hempty]; decide)
  have hpages : Tables.pages { P.storage with disk } h.table = 1 := by rw [hgrown.pages, hempty]
  have hnum := hd.numPages hcat (by rw [hempty]; decide)
  have hnum₁ := hd₁.numPages (d := { P.storage with disk }) hcat (by rw [hpages]; decide)
  -- which is found, and given back.
  have hgrant := LockTable.attempt_of_unheld (hfree 0) t .exclusive
  have hmode := P.locks.modeOf_attempt ⟨h.table, 0⟩ t .exclusive
  have hcons := hlocks.attempt ⟨h.table, 0⟩ t .exclusive
  rw [congrArg Prod.snd hgrant] at hmode
  generalize (P.locks.attempt ⟨h.table, 0⟩ t .exclusive).1 = L at hgrant hmode hcons
  obtain ⟨L', -, hrelease⟩ := LockTable.release_of_held hcons (p := ⟨h.table, 0⟩) (t := t)
    (by rw [hmode, if_pos ⟨rfl, rfl, rfl⟩]; rfl)
  have hfree₁ : ∀ u, L'.modeOf ⟨h.table, 1⟩ u = none := by
    intro u
    have hafter := LockTable.modeOf_release hcons ⟨h.table, 0⟩ t ⟨h.table, 1⟩ u
    rw [hrelease, if_neg (by simp), hmode, if_neg (by simp)] at hafter
    exact hafter.trans (hfree 1 u)
  have hgrant₁ := LockTable.attempt_of_unheld hfree₁ t .exclusive
  have hfetch := Pool.fetch_of_resident (P := ({ P with storage := { P.storage with disk } } : Pool Tables).withLocks L)
    hcached
  -- The second page cannot be read.
  obtain ⟨disk', happ', hd₂, hgrown'⟩ := hd₁.append (d := { P.storage with disk }) hcat (by rw [hpages]; decide)
  have hpages' : Tables.pages { P.storage with disk := disk' } h.table = 2 := by rw [hgrown'.pages, hpages]
  have hnum₂ := hd₂.numPages (d := { P.storage with disk := disk' }) hcat (by rw [hpages']; decide)
  have hunread := hd₂.readPage (d := { P.storage with disk := disk' }) hcat (by rw [hpages']; decide) (n := 1)
    (by rw [hpages']; decide)
  rw [hempty] at happ hnum
  rw [hpages] at happ' hnum₁
  rw [hpages'] at hnum₂
  obtain ⟨hopen, hpool, hresult⟩ := insert_past_full hcat hsize hnum happ hnum₁
    (by rw [LockTable.holds, hfree]; rfl) hgrant hfetch hfull hrelease happ' hnum₂ hgrant₁
    (Pool.fetch_of_unread hnone (congrArg (Prod.mk _) hunread))
  refine ⟨_, leads_run _ 11, hopen, hresult, ?_⟩
  rw [hpool]
  exact hpages'

/-- A page of which all slots are used, where a page has one. -/
def fullPage : PageData := SlotLayout.setUsed PageData.zeros 0 true

/-- The table on one full page. -/
def fullTables : Tables :=
  Tables.register { disk := Disk.put {} "t" { file := .memory { bytes := fullPage.bytes } } } (.heap Ledger.wideFile)

/-- The other file, which is empty. -/
def shortFile : HeapFile := { Ledger.wideFile with file := { name := "s" } }

/-- The table on that file, which cannot be read. -/
def shortTables : Tables :=
  Tables.register { fullTables with disk := fullTables.disk.setFaults "s" { read := true } } (.heap shortFile)

def fullPool : Pool Tables := { capacity := 4, storage := fullTables, draws := Draws.ofSeed 7 }

theorem create_fullPool : Pool.create 4 (Draws.ofSeed 7) fullTables = .ok fullPool := rfl

/-- The full page was read when the table was given the other file. -/
def stalePool : Pool Tables := { (fullPool.fetch (Ledger.widePage 0)).1 with storage := shortTables }

theorem fullTables_contents : fullTables.contents (Ledger.widePage 0) = fullPage := by
  have hbytes : fullTables.bytesOf Ledger.wideFile.table = fullPage.bytes := by
    simp [fullTables, Tables.bytesOf_register, Ledger.wideFile, Disk.bytes, Disk.file_put, File.bytes]
  refine PageData.ext_byte fun i hi => ?_
  rw [Tables.contents, PageData.byte_ofBytes, if_pos hi, hbytes, PageId.offset]
  simp [PageData.byte]

theorem fullPool_fetch : ∃ P : Pool Tables, fullPool.fetch (Ledger.widePage 0) = (P, .ok ⟨0⟩) ∧
    P.resident = (∅ : ExtTreeMap PageId FrameId).insert (Ledger.widePage 0) ⟨0⟩ ∧ P.locks = LockTable.empty ∧
    (P.page ⟨0⟩).data = fullPage := by
  have hsound : fullTables.Sound := by
    refine Tables.Sound.register ⟨?_, ?_, ?_⟩ ⟨?_, ?_, ?_⟩
    all_goals simp [Ledger.wideFile, Disk.Faultless, Disk.file_put]
  have hpages : fullTables.pages Ledger.wideFile.table = 1 := by
    simp [Tables.pages, fullTables, Tables.bytesOf_register, Ledger.wideFile, Disk.bytes, Disk.file_put,
      File.bytes, fullPage, PageData.size_eq, pageSize]
  have hfetch := Pool.fetch_of_room (P := fullPool) (p := Ledger.widePage 0) hsound (by simp [fullPool])
    (by simp [fullPool]) (by simp [fullPool, hpages]) (by simp [fullPool, hpages, maxPageNo, UInt32.size])
  refine ⟨_, hfetch, rfl, rfl, ?_⟩
  have hpage := Pool.page_nextFrame (fullPool.tally fun c => { c with misses := c.misses + 1 })
    (Page.ofData (Ledger.widePage 0) (fullPool.storage.contents (Ledger.widePage 0)))
  exact (congrArg Page.data hpage).trans fullTables_contents

theorem shortTables_catalog : shortTables.catalog[shortFile.table]? = some (.heap shortFile) := by
  rw [shortTables, Tables.catalog_register, if_pos rfl]

theorem shortTables_unreadable : Unreadable shortFile shortTables.disk := by
  simp [Unreadable, Disk.view, shortFile, Ledger.wideFile, shortTables, Tables.register, Disk.setFaults,
    Disk.file_put]

theorem shortTables_pages : shortTables.pages shortFile.table = 0 := by
  rw [Tables.pages_of_heap shortTables_catalog]
  simp [HeapFile.pagesOn, shortFile, Ledger.wideFile, shortTables, Tables.register, Disk.setFaults, Disk.bytes,
    Disk.file_put, fullTables, File.bytes, show Disk.file {} "s" = {} from rfl]

theorem stalePool_reached : fullPool.Reaches stalePool ∧ stalePool.locks.Reachable ∧
    stalePool.storage = shortTables := by
  obtain ⟨P, hfetch, -, hlocks, -⟩ := fullPool_fetch
  have hreach : fullPool.Reaches P := by
    have hstep := (Pool.Reaches.refl : fullPool.Reaches fullPool).step (o := .fetch (Ledger.widePage 0)) trivial
    rwa [CacheOp.run, hfetch] at hstep
  rw [stalePool, hfetch]
  exact ⟨hreach.step (o := .restock shortTables) trivial, hlocks ▸ .empty, rfl⟩

theorem stalePool_insert : ∃ s,
    Leads { pool := stalePool, call := .ofRequest ⟨1⟩ (.insert shortFile.table (Ledger.wideRow 0xaa)) } s ∧
    s.call.result? = none ∧ s.step.call.result? = some (.error diskUnavailable) ∧
    s.step.pool.storage.pages shortFile.table = 2 := by
  obtain ⟨P, hfetch, hres, hlocks, hdata⟩ := fullPool_fetch
  rw [stalePool, hfetch]
  refine two_pages_of_stale (f := ⟨0⟩) ⟨1⟩ shortTables_catalog shortTables_unreadable shortTables_pages
    ?_ ?_ ?_ ?_ ?_ ?_
  · simp [Ledger.wideRow, shortFile, Ledger.wideFile]
  · show P.locks.Consistent
    rw [hlocks]
    exact LockTable.Reachable.empty.inv.1
  · intro n u
    show P.locks.modeOf _ u = none
    rw [hlocks]
    rfl
  · show P.resident[Ledger.widePage 0]? = _
    simp [hres]
  · show Ledger.wideFile.layout.freeSlot (P.page ⟨0⟩).data = none
    rw [hdata, Ledger.wideFile_freeSlot, fullPage, SlotLayout.isUsed_setUsed (l := Ledger.wideFile.layout) (by decide)]
    simp
  · show P.resident[Ledger.widePage 1]? = none
    simp [hres]

/-- The insert at the stale pool: it keeps the row, and holds the page that it could not fetch. -/
theorem insert_footprint_stale : ∃ s e,
    Leads { pool := stalePool, call := .ofRequest ⟨1⟩ (.insert shortFile.table (Ledger.wideRow 0xaa)) } s ∧
    s.call.result? = none ∧ s.step.call.result? = some (.error e) ∧ s.step.call.tuple = Ledger.wideRow 0xaa ∧
    Declined shortFile stalePool s.step.pool ∧
    (s.step.pool.locks.heldSet ⟨1⟩ = stalePool.locks.heldSet ⟨1⟩ ∨
      ∃ p i, s.call.activity = .fetching p (.place i) ∧
        s.step.pool.locks.heldSet ⟨1⟩ = (stalePool.locks.heldSet ⟨1⟩).insert p) := by
  obtain ⟨hreach, hlocks, hstorage⟩ := stalePool_reached
  obtain ⟨s, hrun, hopen, hresult, -⟩ := stalePool_insert
  have hcat : stalePool.storage.catalog[shortFile.table]? = some (.heap shortFile) :=
    hstorage ▸ shortTables_catalog
  have hcandid : stalePool.storage.disk.Candid shortFile.file := hstorage ▸ shortTables_unreadable.candid
  exact ⟨s, _, hrun, hopen, hresult,
    (insert_footprint create_fullPool hreach hlocks hcat hcandid hrun hopen).2 _ hresult⟩

/-- **An insert that fails can have appended two pages.** -/
theorem two_pages_appended :
    Pool.create 4 (Draws.ofSeed 7) fullTables = .ok fullPool ∧ fullPool.Reaches stalePool ∧
    stalePool.locks.Reachable ∧ stalePool.storage.catalog[shortFile.table]? = some (.heap shortFile) ∧
    stalePool.storage.disk.Candid shortFile.file ∧ ∃ s,
      Leads { pool := stalePool, call := .ofRequest ⟨1⟩ (.insert shortFile.table (Ledger.wideRow 0xaa)) } s ∧
      s.call.result? = none ∧ s.step.call.result? = some (.error diskUnavailable) ∧
      s.step.pool.storage.pages shortFile.table = stalePool.storage.pages shortFile.table + 2 := by
  obtain ⟨hreach, hlocks, hstorage⟩ := stalePool_reached
  obtain ⟨s, hrun, hopen, hresult, hpages⟩ := stalePool_insert
  rw [hstorage]
  exact ⟨create_fullPool, hreach, hlocks, shortTables_catalog, shortTables_unreadable.candid, s, hrun, hopen, hresult,
    by rw [hpages, shortTables_pages]⟩

end Solo

end PageEngine
