import Mathlib
import PageEngine.Proofs.World.Ledger
import PageEngine.Proofs.World.Scan

/-!
# `Proofs/World/Snapshot.lean` — which rows a scan returns

A scan keeps the lock of every page from which it has collected, so its rows are all live for its
transaction when it returns, whatever happened in between:

> **a scan returns the live rows of the pages that the file had when the scan began**, each of them once.

It counts the pages only once. If the file grows while the scan waits for a page, the rows on the new
pages are missing, also those of transactions that have committed by then, and of whose rows on the other
pages the scan returns all.
-/

set_option autoImplicit false

namespace PageEngine

open Std

/-! ## Collected rows -/

section Collected

variable {origin : RecordId → Option Bytes} {porigin : PageId → PageData} {ch : FrameId → Prop}
  {P : Pool Tables} {h : History} {L : RowHistory} {t : TxnId} {x : HeapFile} {n : Nat}
  {rows : List Tuple}

/-- **What a scan has collected are the live rows of its pages.** -/
theorem Collected.mem_iff (hc : Collected P h t x n rows) (ha : RowsAgree origin P.storage h L)
    (y : Tuple) :
    y ∈ rows ↔ ∃ r row, y = ⟨some r, row⟩ ∧ r.page.table = x.table ∧ r.page.pageNo < n ∧
      RowHistory.live origin t r L = some row := by
  have hlive : ∀ i < n, ∀ s, x.layout.rowAt (shown P h t ⟨x.table, i⟩) s =
      RowHistory.live origin t ⟨⟨x.table, i⟩, s⟩ L :=
    fun i hi s => ha.rowAt_shown hc.registered (hc.hasPage i hi).1 t s
  simp only [hc.rows_eq, List.mem_flatMap, List.mem_range, SlotLayout.mem_tuples]
  constructor
  · rintro ⟨i, hi, s, row, hrow, rfl⟩
    exact ⟨_, row, rfl, rfl, hi, (hlive i hi s).symm.trans hrow⟩
  · rintro ⟨⟨⟨table, i⟩, s⟩, row, rfl, rfl, hi, hrow⟩
    exact ⟨i, hi, s, row, (hlive i hi s).trans hrow, rfl⟩

/-- No row is collected twice. -/
theorem Collected.nodup (hc : Collected P h t x n rows) : (rows.map Tuple.recordId).Nodup := by
  rw [hc.rows_eq, List.map_flatMap, List.nodup_flatMap]
  refine ⟨fun i _ => SlotLayout.tuples_nodup _ _ _, ?_⟩
  refine List.nodup_range.imp fun {i j} hij => ?_
  simp only [Function.onFun, List.disjoint_left, List.mem_map, SlotLayout.mem_tuples]
  rintro _ ⟨_, ⟨s, row, -, rfl⟩, rfl⟩ ⟨_, ⟨s', row', -, rfl⟩, heq⟩
  simp at heq
  exact hij heq.1.symm

end Collected

namespace Ledger

variable {capacity : Nat} {draws : Draws} {d : Tables} {P : Pool Tables} {ℓ : Ledger} {t : TxnId}
  {k k' : Task} {x : HeapFile} {as : List Action} {rows : List Tuple}

/-! ## Runs of ledgers -/

theorem run_world (ℓ : Ledger) (as : List Action) : (ℓ.run as).world = ℓ.world.run as := by
  induction as generalizing ℓ with
  | nil => rfl
  | cons a as ih => exact ih (ℓ.act a)

theorem Inv.run (hℓ : ℓ.Inv d) (h : ℓ.world.Lasts Action.RowWise t as) : (ℓ.run as).Inv d := by
  induction as generalizing ℓ with
  | nil => exact hℓ
  | cons a as ih => exact ih (hℓ.act h.2.1 h.2.2.1) h.2.2.2

/-- A section in which a call gets its result changes no row. -/
theorem newRows_of_finished (hk : ℓ.world.tasks t = some k) {res : Except Error Answer}
    (hres : (k.call.step ℓ.world.pool).2.activity = .finished res) : ℓ.newRows (.advance t) = [] := by
  have hend : ∀ b, k.call.activity ≠ .start (.complete b) := by
    intro b hact
    simp [Call.step, hact, Call.start, Call.goOn] at hres
  simp only [newRows, hk]
  exact Task.rowEvents_of_finished hend hres

/-! ## The rows of a scan -/

/-- A scan of `x` by `t` of which the first section runs next in `ℓ`, and which returns `rows` after the
actions `as`. -/
structure Scans (P : Pool Tables) (ℓ : Ledger) (t : TxnId) (x : HeapFile) (as : List Action)
    (rows : List Tuple) : Prop where
  reachable : Reachable P ℓ
  begins : ∃ k, ℓ.world.tasks t = some k ∧ k.call.activity = .start (.scan x)
  registered : ℓ.world.pool.storage.catalog[x.table]? = some (.heap x)
  lasts : ℓ.world.Lasts Action.RowWise t as
  first : ∀ a ∈ as.head?, a = .advance t
  returns : ∃ k, (ℓ.run as).world.tasks t = some k ∧
    (k.call.step (ℓ.run as).world.pool).2.activity = .finished (.ok (.rows rows))

theorem Scans.collected (h : Scans P ℓ t x as rows) (hℓ : ℓ.Inv d) :
    Collected (ℓ.run as).world.pool (ℓ.run as).world.history t x (ℓ.world.pool.storage.pages x.table)
      rows := by
  obtain ⟨k, hk, hstart⟩ := h.begins
  obtain ⟨k', hk', hrows⟩ := h.returns
  rw [run_world] at hk' hrows ⊢
  exact hℓ.world.collected_of_scan (fun _ => Action.RowWise.throughPool) hk hstart h.registered h.lasts
    h.first hk' hrows

/-- The section in which the scan returns changes no row. -/
theorem Scans.live_eq (h : Scans P ℓ t x as rows) (d : Tables) (r : RecordId) :
    ((ℓ.run as).act (.advance t)).live d t r = (ℓ.run as).live d t r := by
  obtain ⟨k, hk, hrows⟩ := h.returns
  simp only [live, act, newRows_of_finished hk hrows, List.nil_append]

/-- The rows of a scan are those that are live when it returns on the pages that there were when it
began. -/
theorem Scans.mem_iff (h : Scans P ℓ t x as rows) (hℓ : ℓ.Inv d) (y : Tuple) :
    y ∈ rows ↔ ∃ r row, y = ⟨some r, row⟩ ∧ r.page.table = x.table ∧
      r.page.pageNo < ℓ.world.pool.storage.pages x.table ∧ (ℓ.run as).live d t r = some row :=
  (h.collected hℓ).mem_iff (hℓ.run h.lasts).rows y

/-- There is no live row past the end of a file. -/
theorem Inv.pageNo_lt_of_live (hℓ : ℓ.Inv d) {r : RecordId} {row : Bytes}
    (hrow : ℓ.live d t r = some row) : r.page.pageNo < ℓ.world.pool.storage.pages r.page.table := by
  by_contra hle
  rw [live, hℓ.rows.live_of_le hℓ.world.pool (Nat.not_lt.1 hle)] at hrow
  cases hrow

/-! ## Calls that nobody comes in between -/

section Alone

variable {u : TxnId} {y : Tuple} {n slot ticket : Nat} {L L' : LockTable} {Q Q' R : Pool Tables}
  {f g : FrameId} {disk : Disk} {p : PageId}

theorem run_append (ℓ : Ledger) (as bs : List Action) : ℓ.run (as ++ bs) = (ℓ.run as).run bs :=
  List.foldl_append

theorem Reachable.serve (hℓ : Reachable P ℓ) (hidle : ℓ.world.tasks u = none) {r : Request}
    (hr : (Action.request u r).RowWise) (n : Nat) :
    Reachable P (ℓ.run (.request u r :: List.replicate n (.advance u))) := by
  have hfirst := hℓ.step (a := .request u r) hidle hr
  show Reachable P ((ℓ.act (.request u r)).run (List.replicate n (.advance u)))
  generalize ℓ.act (.request u r) = v at hfirst
  induction n generalizing v with
  | zero => exact hfirst
  | succ n ih => exact ih _ (hfirst.step (a := .advance u) trivial trivial)

/-- An insert that finds a free slot on the first page. -/
theorem insert_alone (hidle : ℓ.world.tasks t = none)
    (hcat : ℓ.world.pool.storage.catalog[x.table]? = some (.heap x))
    (hsize : y.data.size = x.layout.width)
    (hnum : x.numPages ℓ.world.pool.storage.disk = .ok n) (hn : 0 < n)
    (hgrant : ℓ.world.pool.locks.attempt ⟨x.table, 0⟩ t .exclusive = (L, .granted))
    (hfetch : (ℓ.world.pool.withLocks L).fetch ⟨x.table, 0⟩ = (Q, .ok f))
    (hslot : x.layout.freeSlot (Q.page f).data = some slot)
    (hinst : (Q.setPage f ((Q.page f).withData
      (x.layout.place (Q.page f).data slot y.data))).install t f = (R, .ok ())) :
    (ℓ.run (.request t (.insert x.table y) :: List.replicate 7 (.advance t))).world.pool = R ∧
    (ℓ.run (.request t (.insert x.table y) :: List.replicate 7 (.advance t))).world.tasks =
      ℓ.world.tasks ∧
    (ℓ.run (.request t (.insert x.table y) :: List.replicate 7 (.advance t))).rows =
      .changed t ⟨⟨x.table, 0⟩, slot⟩ (some y.data) :: ℓ.rows := by
  simp [run, act, newRows, nextAsked, World.act, World.setTask, World.advance, World.runSection,
    Call.ofRequest, Call.step, Call.start, Call.startInsert, Call.tryNext, Call.goOn,
    Call.attemptLock, Call.useFrame, Call.place, Call.changed, Call.finish, Task.events, Task.after,
    Task.nextDraft, Call.result?, Tables.store, Insertion.page, hcat, hsize, hnum, hn, hgrant, hfetch,
    hslot, hinst, hidle, Event.rowEvents, Request.rowChange]

/-- An insert of a transaction that holds the only page, which is full: the file grows. -/
theorem insert_growing (hidle : ℓ.world.tasks t = none)
    (hcat : ℓ.world.pool.storage.catalog[x.table]? = some (.heap x))
    (hsize : y.data.size = x.layout.width)
    (hnum : x.numPages ℓ.world.pool.storage.disk = .ok 1)
    (hheld : ℓ.world.pool.locks.holds ⟨x.table, 0⟩ t = true)
    (hgrant : ℓ.world.pool.locks.attempt ⟨x.table, 0⟩ t .exclusive = (L, .granted))
    (hfetch : (ℓ.world.pool.withLocks L).fetch ⟨x.table, 0⟩ = (Q, .ok f))
    (hfull : x.layout.freeSlot (Q.page f).data = none)
    (happ : x.append Q.storage.disk 1 = (disk, .ok ())) (hnum' : x.numPages disk = .ok 2)
    (hgrant' : Q.locks.attempt ⟨x.table, 1⟩ t .exclusive = (L', .granted))
    (hfetch' : (({ Q with storage := { Q.storage with disk } } : Pool Tables).withLocks L').fetch
      ⟨x.table, 1⟩ = (Q', .ok g))
    (hslot : x.layout.freeSlot (Q'.page g).data = some slot)
    (hinst : (Q'.setPage g ((Q'.page g).withData
      (x.layout.place (Q'.page g).data slot y.data))).install t g = (R, .ok ())) :
    (ℓ.run (.request t (.insert x.table y) :: List.replicate 12 (.advance t))).world.pool = R ∧
    (ℓ.run (.request t (.insert x.table y) :: List.replicate 12 (.advance t))).world.tasks =
      ℓ.world.tasks ∧
    (ℓ.run (.request t (.insert x.table y) :: List.replicate 12 (.advance t))).rows =
      .changed t ⟨⟨x.table, 1⟩, slot⟩ (some y.data) :: ℓ.rows := by
  simp [run, act, newRows, nextAsked, World.act, World.setTask, World.advance, World.runSection,
    Call.ofRequest, Call.step, Call.start, Call.startInsert, Call.tryNext, Call.goOn,
    Call.attemptLock, Call.useFrame, Call.place, Call.changed, Call.finish, Task.events, Task.after,
    Task.nextDraft, Call.result?, Tables.store, Insertion.page, hcat, hsize, hnum, hheld, hgrant, hfetch,
    hfull, happ, hnum', hgrant', hfetch', hslot, hinst, hidle, Event.rowEvents, Request.rowChange]

theorem complete_alone (hidle : ℓ.world.tasks t = none) (commit : Bool) :
    (ℓ.run (.request t (.complete commit) :: List.replicate 3 (.advance t))).world.pool =
      (((ℓ.world.pool.settlePages t commit).1).releaseAll t).1.countEnd commit ∧
    (ℓ.run (.request t (.complete commit) :: List.replicate 3 (.advance t))).world.tasks =
      ℓ.world.tasks ∧
    (ℓ.run (.request t (.complete commit) :: List.replicate 3 (.advance t))).rows =
      .ended t commit :: ℓ.rows := by
  refine ⟨?_, ?_, ?_⟩
  · rw [run_world, World.complete_alone hidle]
  · rw [run_world, World.complete_alone hidle]
  · simp [run, act, newRows, nextAsked, World.act, World.setTask, World.advance, World.runSection,
      Call.ofRequest, Call.step, Call.start, Call.goOn, Call.finish, Task.events, Task.after,
      Task.nextDraft, Call.result?, Event.rowEvents]

/-- A scan that has to wait for the first page. -/
theorem scan_sleeps (hk : ℓ.world.tasks t = some { call := Call.ofRequest t (.scan x) })
    (hnum : x.numPages ℓ.world.pool.storage.disk = .ok n) (hn : 0 < n)
    (hsleeps : ℓ.world.pool.locks.attempt ⟨x.table, 0⟩ t .shared = (L, .sleeps ticket)) :
    (ℓ.run (List.replicate 2 (.advance t))).world.pool = ℓ.world.pool.withLocks L ∧
    (ℓ.run (List.replicate 2 (.advance t))).world.tasks = Function.update ℓ.world.tasks t (some { call :=
      ⟨t, .sleeping ticket ⟨x.table, 0⟩ .shared (.collect x n 0 []), ⟨none, #[]⟩, true⟩ }) ∧
    (ℓ.run (List.replicate 2 (.advance t))).rows = ℓ.rows := by
  simp [run, act, newRows, nextAsked, World.act, World.advance, World.runSection, Call.ofRequest,
    Call.step, Call.start, Call.collectNext, Call.goOn, Call.attemptLock, Task.events, Task.after,
    Task.nextDraft, Call.result?, hk, hnum, hn, hsleeps]

/-- The scan goes on when it is woken. -/
theorem scan_woken {next : Nat} {rows : List Tuple}
    (hk : ℓ.world.tasks t = some { call :=
      ⟨t, .sleeping ticket p .shared (.collect x n next rows), ⟨none, #[]⟩, true⟩ })
    (hwoken : ℓ.world.pool.locks.sleeps ticket = false)
    (hgrant : ℓ.world.pool.locks.attempt p t .shared = (L, .granted))
    (hfetch : (ℓ.world.pool.withLocks L).fetch p = (Q, .ok f)) :
    (ℓ.run (List.replicate 2 (.advance t))).world.pool = Q ∧
    (ℓ.run (List.replicate 2 (.advance t))).world.tasks t = some { call :=
      ⟨t, .working p f (.collect x n next rows), ⟨none, #[]⟩, true⟩ } ∧
    (ℓ.run (List.replicate 2 (.advance t))).rows = ℓ.rows := by
  simp [run, act, newRows, nextAsked, World.act, World.advance, World.runSection, Call.step,
    Call.goOn, Call.attemptLock, Task.events, Task.after, Task.nextDraft, Call.result?, hk, hwoken,
    hgrant, hfetch]

end Alone

/-! ## A file that grows under a scan -/

theorem slotsOfWidth_half : 0 < slotsOfWidth 2048 ∧ slotsOfWidth 2048 ≤ maxSlots := by decide

/-- A heap file whose pages have one slot. -/
def wideFile : HeapFile :=
  ⟨⟨1⟩, { name := "t" }, ⟨2048, Nat.succ_pos 2047, by decide, slotsOfWidth_half.1, slotsOfWidth_half.2⟩⟩

abbrev widePage (n : Nat) : PageId := ⟨wideFile.table, n⟩

/-- The one record of a page. -/
abbrev wideRecord (n : Nat) : RecordId := ⟨widePage n, 0⟩

/-- A row of that width that consists of one byte. -/
def wideRow (b : UInt8) : Tuple := ⟨none, Array.replicate 2048 b⟩

/-- One table, of one page of zeros. -/
def wideTables : Tables :=
  Tables.register { disk := Disk.put {} "t" { file := .memory { bytes := Bytes.zeros pageSize } } }
    (.heap wideFile)

/-- A pool over this table. -/
def widePool : Pool Tables := { capacity := 4, storage := wideTables, draws := Draws.ofSeed 7 }

theorem create_widePool : Pool.create 4 (Draws.ofSeed 7) wideTables = .ok widePool := rfl

theorem wideTables_sound : wideTables.Sound := by
  refine Tables.Sound.register ⟨?_, ?_, ?_⟩ ⟨?_, ?_, ?_⟩
  all_goals simp [wideFile, Disk.Faultless, Disk.file_put]

theorem wideTables_catalog : wideTables.catalog[wideFile.table]? = some (.heap wideFile) := by
  rw [wideTables, Tables.catalog_register, if_pos rfl]

theorem wideTables_pages : wideTables.pages wideFile.table = 1 := by
  simp [Tables.pages, wideTables, Tables.bytesOf_register, wideFile, Disk.bytes, Disk.file_put,
    File.bytes, pageSize]

theorem wideTables_numPages : wideFile.numPages wideTables.disk = .ok 1 := by
  rw [Tables.numPages_of_heap wideTables_sound wideTables_catalog, wideTables_pages]
  rfl

/-- There is nothing in the table. -/
theorem wideTables_contents (p : PageId) : wideTables.contents p = PageData.zeros := by
  have hbytes : ∀ i, (wideTables.bytesOf p.table).byte i = 0 := by
    intro i
    by_cases ht : p.table = wideFile.table
    · simp [wideTables, Tables.bytesOf_register, ht, wideFile, Disk.bytes, Disk.file_put, File.bytes]
    · rw [wideTables, Tables.bytesOf_register, if_neg ht]
      simp [Tables.bytesOf, Bytes.byte]
  apply PageData.ext_byte
  intro i _
  rw [Tables.contents, PageData.byte_ofBytes, PageData.byte_zeros, hbytes, ite_self]

theorem wideTables_rowAt (r : RecordId) : wideTables.rowAt r = none := by
  unfold Tables.rowAt
  split
  · rw [wideTables_contents, SlotLayout.rowAt_zeros, ite_self]
  · rfl

theorem wideFile_freeSlot (d : PageData) :
    wideFile.layout.freeSlot d = if SlotLayout.isUsed d 0 then none else some 0 :=
  SlotLayout.freeSlot_of_one (by decide) d

/-- Transaction 1 has the first page. -/
def locks₁ : LockTable := (LockTable.empty.attempt (widePage 0) ⟨1⟩ .exclusive).1

/-- Transaction 2 waits for it. -/
def locks₂ : LockTable := (locks₁.attempt (widePage 0) ⟨2⟩ .shared).1

/-- Transaction 1 has asked for it again. -/
def locks₃ : LockTable := (locks₂.attempt (widePage 0) ⟨1⟩ .exclusive).1

/-- Transaction 1 has the second page as well. -/
def locks₄ : LockTable := (locks₃.attempt (widePage 1) ⟨1⟩ .exclusive).1

/-- The actions of a transaction that inserts a row, when its call has `n` sections. -/
def inserts (t : TxnId) (b : UInt8) (n : Nat) : List Action :=
  .request t (.insert wideFile.table (wideRow b)) :: List.replicate n (.advance t)

/-- The first page holds a row of transaction 1, in the first frame. -/
structure FirstRow (ℓ : Ledger) : Prop where
  rows : ℓ.rows = [.changed ⟨1⟩ (wideRecord 0) (some (wideRow 0xaa).data)]
  storage : ℓ.world.pool.storage = wideTables
  capacity : ℓ.world.pool.capacity = 4
  resident : ℓ.world.pool.resident = (∅ : ExtTreeMap PageId FrameId).insert (widePage 0) ⟨0⟩
  size : ℓ.world.pool.frames.size = 1
  full : SlotLayout.isUsed (ℓ.world.pool.page ⟨0⟩).data 0 = true

/-- Locks make no difference, and what is counted of the requests. -/
theorem FirstRow.congr {ℓ ℓ' : Ledger} (h : FirstRow ℓ) (hrows : ℓ'.rows = ℓ.rows)
    (hpool : ∃ L c, ℓ'.world.pool = { ℓ.world.pool with locks := L, counters := c }) : FirstRow ℓ' := by
  obtain ⟨L, c, hpool⟩ := hpool
  refine ⟨hrows.trans h.rows, ?_, ?_, ?_, ?_, ?_⟩
  all_goals rw [hpool]
  · exact h.storage
  · exact h.capacity
  · exact h.resident
  · exact h.size
  · exact h.full

/-- The scan of transaction 2 has counted one page and sleeps for it, and transaction 1 has no call in
flight. -/
structure ScanSleeps (ℓ : Ledger) (L : LockTable) : Prop where
  scan : ℓ.world.tasks ⟨2⟩ = some { call :=
    ⟨⟨2⟩, .sleeping 0 (widePage 0) .shared (.collect wideFile 1 0 []), ⟨none, #[]⟩, true⟩ }
  idle : ℓ.world.tasks ⟨1⟩ = none
  locks : ℓ.world.pool.locks = L

/-- The scan sleeps on while transaction 1 is served. -/
theorem ScanSleeps.lasts {ℓ : Ledger} {L : LockTable} (h : ScanSleeps ℓ L) {r : Request}
    (hr : (Action.request ⟨1⟩ r).RowWise) (n : Nat) :
    ℓ.world.Lasts Action.RowWise ⟨2⟩ (.request ⟨1⟩ r :: List.replicate n (.advance ⟨1⟩)) :=
  World.lasts_of_other (by rw [h.scan]; rfl) (by decide) h.idle hr trivial n

theorem firstRow_insert {ℓ : Ledger} (hℓ : (start widePool).run (inserts ⟨1⟩ 0xaa 7) = ℓ) :
    FirstRow ℓ ∧ ℓ.world.tasks = (fun _ => none) ∧ ℓ.world.pool.locks = locks₁ := by
  have hgrant : LockTable.empty.attempt (widePage 0) ⟨1⟩ .exclusive = (locks₁, .granted) :=
    Prod.ext rfl (by cbv)
  obtain ⟨Q, hfetch, hdata, -, -, hinst⟩ := Pool.install_fresh (P := widePool.withLocks locks₁)
    (p := widePage 0) wideTables_sound (by simp [Pool.withLocks, widePool])
    (by simp [Pool.withLocks, widePool]) (by simp [Pool.withLocks, widePool, wideTables_pages])
    (by simp [Pool.withLocks, widePool, wideTables_pages, maxPageNo, UInt32.size]) ⟨1⟩
  obtain ⟨R, hR, hs, hl, hcap, hres, hsize, hpage⟩ := hinst
    (wideFile.layout.place (Q.page ⟨0⟩).data 0 (wideRow 0xaa).data)
  change (Q.page ⟨0⟩).data = wideTables.contents (widePage 0) at hdata
  have hslot : wideFile.layout.freeSlot (Q.page ⟨0⟩).data = some 0 := by
    rw [wideFile_freeSlot, hdata, wideTables_contents, SlotLayout.isUsed_zeros]
    rfl
  have hfull : SlotLayout.isUsed (R.page ⟨0⟩).data 0 = true := by
    change (R.page ⟨0⟩).data = _ at hpage
    rw [hpage]
    exact SlotLayout.isUsed_place (by decide) _
  obtain ⟨hpool, htasks, hrows⟩ := insert_alone (ℓ := start widePool) (t := ⟨1⟩) rfl
    wideTables_catalog (y := wideRow 0xaa) (by simp [wideRow, wideFile]) wideTables_numPages
    Nat.one_pos hgrant hfetch hslot hR
  rw [inserts] at hℓ
  rw [hℓ] at hpool htasks hrows
  subst hpool
  exact ⟨⟨hrows, hs, hcap, hres, hsize, hfull⟩, htasks, hl⟩

/-- The scan of transaction 2 begins and goes to sleep. -/
theorem firstRow_scan {ℓ : Ledger} (h : FirstRow ℓ) (hidle : ℓ.world.tasks = fun _ => none)
    (hl : ℓ.world.pool.locks = locks₁) :
    FirstRow ((ℓ.act (.request ⟨2⟩ (.scan wideFile))).run (List.replicate 2 (.advance ⟨2⟩))) ∧
    ScanSleeps ((ℓ.act (.request ⟨2⟩ (.scan wideFile))).run (List.replicate 2 (.advance ⟨2⟩))) locks₂ ∧
    (ℓ.act (.request ⟨2⟩ (.scan wideFile))).world.Lasts Action.RowWise ⟨2⟩
      (List.replicate 2 (.advance ⟨2⟩)) := by
  have hsleeps : (ℓ.act (.request ⟨2⟩ (.scan wideFile))).world.pool.locks.attempt (widePage 0) ⟨2⟩
      .shared = (locks₂, .sleeps 0) := by
    show ℓ.world.pool.locks.attempt _ _ _ = _
    rw [hl]
    exact Prod.ext rfl (by cbv)
  have hnum : wideFile.numPages (ℓ.act (.request ⟨2⟩ (.scan wideFile))).world.pool.storage.disk =
      .ok 1 := by
    show wideFile.numPages ℓ.world.pool.storage.disk = .ok 1
    rw [h.storage, wideTables_numPages]
  obtain ⟨hpool, htasks, hrows⟩ := scan_sleeps (ℓ := ℓ.act (.request ⟨2⟩ (.scan wideFile))) (t := ⟨2⟩)
    (by simp [act, World.act, World.setTask]) hnum Nat.one_pos hsleeps
  refine ⟨?_, ?_, World.lasts_of_isSome trivial (by rw [← run_world]; exact htasks ▸ rfl)⟩
  · exact h.congr hrows ⟨_, _, hpool⟩
  · refine ⟨by rw [htasks]; rfl, ?_, by rw [hpool]; rfl⟩
    rw [htasks]
    simp [act, World.act, World.setTask, hidle]

/-- Transaction 1 inserts another row, for which the file grows. -/
theorem firstRow_grow {ℓ : Ledger} (h : FirstRow ℓ) (hs : ScanSleeps ℓ locks₂) :
    ScanSleeps (ℓ.run (inserts ⟨1⟩ 0xbb 12)) locks₄ ∧
    (ℓ.run (inserts ⟨1⟩ 0xbb 12)).world.pool.resident[widePage 0]? = some ⟨0⟩ ∧
    (ℓ.run (inserts ⟨1⟩ 0xbb 12)).rows =
      .changed ⟨1⟩ (wideRecord 1) (some (wideRow 0xbb).data) :: ℓ.rows := by
  obtain ⟨hheld, hgrant⟩ : ℓ.world.pool.locks.holds (widePage 0) ⟨1⟩ = true ∧
      ℓ.world.pool.locks.attempt (widePage 0) ⟨1⟩ .exclusive = (locks₃, .granted) := by
    rw [hs.locks]
    exact ⟨by cbv, Prod.ext rfl (by cbv)⟩
  have hnum : wideFile.numPages ℓ.world.pool.storage.disk = .ok 1 := by
    rw [h.storage, wideTables_numPages]
  -- The first page is cached, and full.
  obtain ⟨Q, hfetch, hQs, hQl, hQcap, hQres, hQsize, hQfull⟩ : ∃ Q : Pool Tables,
      (ℓ.world.pool.withLocks locks₃).fetch (widePage 0) = (Q, .ok ⟨0⟩) ∧ Q.storage = wideTables ∧
      Q.locks = locks₃ ∧ Q.capacity = 4 ∧
      Q.resident = (∅ : ExtTreeMap PageId FrameId).insert (widePage 0) ⟨0⟩ ∧ Q.frames.size = 1 ∧
      SlotLayout.isUsed (Q.page ⟨0⟩).data 0 = true := by
    have hres : (ℓ.world.pool.withLocks locks₃).resident[widePage 0]? = some ⟨0⟩ := by
      simp [Pool.withLocks, h.resident]
    exact ⟨_, Pool.fetch_of_resident hres, h.storage, rfl, h.capacity, h.resident, h.size, h.full⟩
  have hfull : wideFile.layout.freeSlot (Q.page ⟨0⟩).data = none := by
    rw [wideFile_freeSlot, if_pos hQfull]
  -- The file grows by a page of zeros.
  obtain ⟨disk, happ, hgrown⟩ := Tables.append_ok wideTables_sound wideTables_catalog
    (Nat.le_of_eq wideTables_pages) (by simp [wideTables_pages, maxPageNo, UInt32.size])
  have hpages : Tables.pages { wideTables with disk } wideFile.table = 2 := by
    simp [hgrown.pages, wideTables_pages]
  have hzeros : Tables.contents { wideTables with disk } (widePage 1) = PageData.zeros := by
    simp [hgrown.contents, wideTables_pages]
  have hnum' : wideFile.numPages disk = .ok 2 := by
    have hn := Tables.numPages_of_heap (d := { wideTables with disk }) hgrown.sound wideTables_catalog
    rw [hpages] at hn
    exact hn
  have hgrant' : Q.locks.attempt (widePage 1) ⟨1⟩ .exclusive = (locks₄, .granted) := by
    rw [hQl]
    exact Prod.ext rfl (by cbv)
  -- The new page is read into the cache, and has a free slot.
  generalize hS : ({ Q with storage := { Q.storage with disk } } : Pool Tables).withLocks locks₄ = S
  have hSs : S.storage = { wideTables with disk } := by rw [← hS, ← hQs]; rfl
  have hSres : S.resident = (∅ : ExtTreeMap PageId FrameId).insert (widePage 0) ⟨0⟩ := by
    rw [← hS]
    exact hQres
  have hScap : S.capacity = 4 := by rw [← hS, ← hQcap]; rfl
  have hnext : S.nextFrame = ⟨1⟩ := by simp [Pool.nextFrame, ← hS, Pool.withLocks, hQsize]
  obtain ⟨Q', hfetch', hdata, -, -, hinst⟩ := Pool.install_fresh (P := S) (p := widePage 1)
    (by rw [hSs]; exact hgrown.sound) (by simp [hSres])
    (by simp [hSres, ExtTreeMap.size_insert, hScap])
    (by simp [hSs, hpages]) (by simp [hSs, hpages, maxPageNo, UInt32.size]) ⟨1⟩
  rw [hnext] at hfetch' hdata hinst
  obtain ⟨R, hR, -, hl', -, hres', -, -⟩ := hinst
    (wideFile.layout.place (Q'.page ⟨1⟩).data 0 (wideRow 0xbb).data)
  have hslot : wideFile.layout.freeSlot (Q'.page ⟨1⟩).data = some 0 := by
    rw [wideFile_freeSlot, hdata, hSs, hzeros, SlotLayout.isUsed_zeros]
    rfl
  obtain ⟨hpool, htasks, hrows⟩ := insert_growing (y := wideRow 0xbb) hs.idle
    (by rw [h.storage]; exact wideTables_catalog) (by simp [wideRow, wideFile]) hnum hheld hgrant
    hfetch hfull (by rw [hQs]; exact happ) hnum' hgrant' (by rw [hS]; exact hfetch') hslot hR
  rw [inserts]
  refine ⟨⟨by rw [htasks, hs.scan], by rw [htasks, hs.idle], ?_⟩, ?_, hrows⟩
  · rw [hpool, hl', ← hS]
    rfl
  · rw [hpool, hres', hSres, ExtTreeMap.getElem?_insert, if_neg (by simp),
      ExtTreeMap.getElem?_insert_self]

/-- The actions of transaction 1 that commits. -/
def commits : List Action := .request ⟨1⟩ (.complete true) :: List.replicate 3 (.advance ⟨1⟩)

/-- Transaction 1 commits, and the scan wakes and fetches the page. -/
theorem scan_goes_on {ℓ : Ledger} (hinv : ℓ.Inv wideTables) (hs : ScanSleeps ℓ locks₄)
    (hres : ℓ.world.pool.resident[widePage 0]? = some ⟨0⟩) :
    ((ℓ.run commits).run (List.replicate 2 (.advance ⟨2⟩))).rows = .ended ⟨1⟩ true :: ℓ.rows ∧
    (∃ k, ((ℓ.run commits).run (List.replicate 2 (.advance ⟨2⟩))).world.tasks ⟨2⟩ = some k ∧
      k.call.activity = .working (widePage 0) ⟨0⟩ (.collect wideFile 1 0 [])) ∧
    (ℓ.run commits).world.Lasts Action.RowWise ⟨2⟩ (List.replicate 2 (.advance ⟨2⟩)) := by
  obtain ⟨hpool, htasks, hrows⟩ := complete_alone hs.idle true
  obtain ⟨hre, -⟩ := Pool.flushHeld_spec hinv.world.pool.sound hinv.world.pool.filed
    (fun q g hg => (hinv.world.pool.cached q g hg).image.hasPage) ⟨1⟩
  rw [commits]
  generalize ℓ.run (.request ⟨1⟩ (.complete true) :: List.replicate 3 (.advance ⟨1⟩)) = ℓ₁ at *
  have hlocks : ℓ₁.world.pool.locks = (locks₄.releaseAll ⟨1⟩).1 := by
    rw [hpool, ← hs.locks, ← hre.locks]
    rfl
  have hcached : ℓ₁.world.pool.resident[widePage 0]? = some ⟨0⟩ := by
    rw [hpool, ← hres, ← hre.resident]
    rfl
  have hwoken : ℓ₁.world.pool.locks.sleeps 0 = false := by
    rw [hlocks]
    cbv
  have hgrant : ℓ₁.world.pool.locks.attempt (widePage 0) ⟨2⟩ .shared =
      ((ℓ₁.world.pool.locks.attempt (widePage 0) ⟨2⟩ .shared).1, .granted) := by
    rw [hlocks]
    exact Prod.ext rfl (by cbv)
  obtain ⟨-, htask, hrows'⟩ := scan_woken (by rw [htasks]; exact hs.scan) hwoken hgrant
    (Pool.fetch_of_resident hcached)
  exact ⟨hrows'.trans hrows, ⟨_, htask, rfl⟩,
    World.lasts_of_isSome trivial (by rw [← run_world]; exact htask ▸ rfl)⟩

/-- Transaction 1 has inserted a row, and transaction 2 is about to scan the file. -/
def beforeScan : Ledger :=
  ((start widePool).run (inserts ⟨1⟩ 0xaa 7)).act (.request ⟨2⟩ (.scan wideFile))

/-- While the scan waits for the first page, transaction 1 inserts a second row and commits. -/
def growingScan : List Action :=
  List.replicate 2 (.advance ⟨2⟩) ++ (inserts ⟨1⟩ 0xbb 12 ++
    (commits ++ List.replicate 2 (.advance ⟨2⟩)))

theorem scans_growing : ∃ rows, Scans widePool beforeScan ⟨2⟩ wideFile growingScan rows ∧
    beforeScan.world.pool.storage.pages wideFile.table = 1 ∧
    ∀ r, (beforeScan.run growingScan).live wideTables ⟨2⟩ r =
      if r = wideRecord 1 then some (wideRow 0xbb).data
      else if r = wideRecord 0 then some (wideRow 0xaa).data else none := by
  obtain ⟨ℓ₁, hℓ₁⟩ : ∃ ℓ, (start widePool).run (inserts ⟨1⟩ 0xaa 7) = ℓ := ⟨_, rfl⟩
  obtain ⟨h₁, hidle₁, hl₁⟩ := firstRow_insert hℓ₁
  have hreach : Reachable widePool (ℓ₁.act (.request ⟨2⟩ (.scan wideFile))) := by
    have hfirst : Reachable widePool ((start widePool).run (inserts ⟨1⟩ 0xaa 7)) :=
      Reachable.start.serve (r := .insert wideFile.table (wideRow 0xaa)) rfl trivial 7
    rw [hℓ₁] at hfirst
    exact hfirst.step (congrFun hidle₁ _) trivial
  rw [beforeScan, hℓ₁]
  -- The scan sleeps, the file grows, and the scan goes on.
  obtain ⟨h₂, hs₂, hlasts₂⟩ := firstRow_scan h₁ hidle₁ hl₁
  obtain ⟨hs₃, hres₃, hrows₃⟩ := firstRow_grow h₂ hs₂
  have hlasts₃ : ((ℓ₁.act (.request ⟨2⟩ (.scan wideFile))).run
      (List.replicate 2 (.advance ⟨2⟩))).world.Lasts Action.RowWise ⟨2⟩ (inserts ⟨1⟩ 0xbb 12) :=
    hs₂.lasts (r := .insert wideFile.table (wideRow 0xbb)) trivial 12
  have hinv₃ := ((hreach.inv create_widePool wideTables_sound).run hlasts₂).run hlasts₃
  obtain ⟨hrows₄, ⟨k, hk, hact⟩, hlasts₄⟩ := scan_goes_on hinv₃ hs₃ hres₃
  have hlasts : (ℓ₁.act (.request ⟨2⟩ (.scan wideFile))).world.Lasts Action.RowWise ⟨2⟩
      growingScan := by
    rw [growingScan, World.lasts_append, World.lasts_append, World.lasts_append, ← run_world,
      ← run_world, ← run_world]
    exact ⟨hlasts₂, hlasts₃, hs₃.lasts (r := .complete true) trivial 3, hlasts₄⟩
  have hrun : ∀ ℓ : Ledger, ℓ.run growingScan = (((ℓ.run (List.replicate 2 (.advance ⟨2⟩))).run
      (inserts ⟨1⟩ 0xbb 12)).run commits).run (List.replicate 2 (.advance ⟨2⟩)) := fun ℓ => by
    rw [growingScan, run_append, run_append, run_append]
  rw [← hrun] at hk hrows₄
  obtain ⟨rows, hrows⟩ : ∃ rows, (k.call.step
      ((ℓ₁.act (.request ⟨2⟩ (.scan wideFile))).run growingScan).world.pool).2.activity =
        .finished (.ok (.rows rows)) := by
    simp only [Call.step, hact]
    exact ⟨_, rfl⟩
  refine ⟨rows, ⟨hreach, ⟨{ call := Call.ofRequest ⟨2⟩ (.scan wideFile) }, ?_, rfl⟩, ?_, hlasts, ?_,
    ⟨k, hk, hrows⟩⟩, ?_, ?_⟩
  · simp [act, World.act, World.setTask]
  · rw [show (ℓ₁.act (.request ⟨2⟩ (.scan wideFile))).world.pool.storage = wideTables from h₁.storage]
    exact wideTables_catalog
  · simp [growingScan, List.replicate_succ]
  · rw [show (ℓ₁.act (.request ⟨2⟩ (.scan wideFile))).world.pool.storage = wideTables from h₁.storage,
      wideTables_pages]
  · intro r
    have hne : (⟨1⟩ : TxnId) ≠ ⟨2⟩ := by decide
    rw [live, hrows₄, hrows₃, h₂.rows]
    simp only [RowHistory.live, RowHistory.own, RowHistory.committed, wideTables_rowAt, hne,
      true_and, false_and, if_false, Option.getD_none, @eq_comm _ r]
    split_ifs <;> rfl

/-- The second row is not on the page that the scan has counted. -/
theorem counted_rows_growing (y : Tuple) :
    (∃ r row, y = ⟨some r, row⟩ ∧ r.page.table = wideFile.table ∧
      r.page.pageNo < beforeScan.world.pool.storage.pages wideFile.table ∧
      (beforeScan.run growingScan).live wideTables ⟨2⟩ r = some row) ↔
    y = ⟨some (wideRecord 0), (wideRow 0xaa).data⟩ := by
  obtain ⟨-, -, hpages, hlive⟩ := scans_growing
  simp only [hpages, hlive]
  constructor
  · rintro ⟨r, row, rfl, -, hlt, hrow⟩
    rw [if_neg (by rintro rfl; exact absurd hlt (by decide))] at hrow
    obtain ⟨rfl, hrow⟩ := Option.ite_none_right_eq_some.1 hrow
    rw [← Option.some.inj hrow]
  · rintro rfl
    exact ⟨_, _, rfl, rfl, Nat.one_pos, by simp⟩

/-! ## What a scan returns -/

/-- **A scan returns the rows that are live for its transaction when it returns, on the pages that the
file had when the scan began**, each of them once. If the file has not grown in the meantime, these are
all live rows of the file. -/
theorem scan_returns_live (hP : Pool.create capacity draws d = .ok P) (hd : d.Sound)
    (h : Scans P ℓ t x as rows) :
    (rows.map Tuple.recordId).Nodup ∧
    (∀ y, y ∈ rows ↔ ∃ r row, y = ⟨some r, row⟩ ∧ r.page.table = x.table ∧
      r.page.pageNo < ℓ.world.pool.storage.pages x.table ∧
      ((ℓ.run as).act (.advance t)).live d t r = some row) ∧
    ((ℓ.run as).world.pool.storage.pages x.table = ℓ.world.pool.storage.pages x.table →
      ∀ y, y ∈ rows ↔ ∃ r row, y = ⟨some r, row⟩ ∧ r.page.table = x.table ∧
        ((ℓ.run as).act (.advance t)).live d t r = some row) := by
  have hℓ := h.reachable.inv hP hd
  simp only [h.live_eq]
  refine ⟨(h.collected hℓ).nodup, h.mem_iff hℓ, fun hsame y => (h.mem_iff hℓ y).trans ?_⟩
  constructor
  · rintro ⟨r, row, hy, ht, -, hrow⟩
    exact ⟨r, row, hy, ht, hrow⟩
  · rintro ⟨r, row, hy, ht, hrow⟩
    have hlt := (hℓ.run h.lasts).pageNo_lt_of_live hrow
    rw [ht, hsame] at hlt
    exact ⟨r, row, hy, ht, hlt, hrow⟩

/-- The scan returns the row that transaction 1 has put on the page that it has counted. -/
theorem scan_returns_live_growing : ∃ rows,
    Scans widePool beforeScan ⟨2⟩ wideFile growingScan rows ∧
    ∀ y, y ∈ rows ↔ y = ⟨some (wideRecord 0), (wideRow 0xaa).data⟩ := by
  obtain ⟨rows, h, -⟩ := scans_growing
  obtain ⟨-, hmem, -⟩ := scan_returns_live create_widePool wideTables_sound h
  refine ⟨rows, h, fun y => (hmem y).trans ?_⟩
  simp only [h.live_eq]
  exact counted_rows_growing y

/-- **A scan can miss a row of a transaction of which it returns another one.** Both are live for the
scanning transaction when the scan returns: the transaction that has inserted them has committed before the
scan has read a page. -/
theorem committed_row_missed : ∃ rows,
    Scans widePool beforeScan ⟨2⟩ wideFile growingScan rows ∧
    ((beforeScan.run growingScan).act (.advance ⟨2⟩)).live wideTables ⟨2⟩ (wideRecord 0) =
      some (wideRow 0xaa).data ∧
    ((beforeScan.run growingScan).act (.advance ⟨2⟩)).live wideTables ⟨2⟩ (wideRecord 1) =
      some (wideRow 0xbb).data ∧
    (⟨some (wideRecord 0), (wideRow 0xaa).data⟩ : Tuple) ∈ rows ∧
    (⟨some (wideRecord 1), (wideRow 0xbb).data⟩ : Tuple) ∉ rows := by
  obtain ⟨rows, h, -, hlive⟩ := scans_growing
  have hmem : ∀ y, y ∈ rows ↔ y = ⟨some (wideRecord 0), (wideRow 0xaa).data⟩ := fun y =>
    (h.mem_iff (h.reachable.inv create_widePool wideTables_sound) y).trans (counted_rows_growing y)
  refine ⟨rows, h, ?_, ?_, (hmem _).2 rfl, fun hy => absurd ((hmem _).1 hy) (by simp)⟩
  · rw [h.live_eq, hlive, if_neg (by decide), if_pos rfl]
  · rw [h.live_eq, hlive, if_pos rfl]

end Ledger

end PageEngine
