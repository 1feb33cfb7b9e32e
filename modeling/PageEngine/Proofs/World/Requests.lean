import PageEngine.Proofs.World.Rows

/-!
# `Proofs/World/Requests.lean` — what a call knows of the row that it was asked for

A call that inserts or deletes a row goes through several sections, and its request is only told to it in
the first one. In each later one it has to know what it was asked for, and before it installs the page
that it has changed:

> **its draft is the page as its transaction sees it, with the one row changed that the request is
> about.**

`RowTask` says this. It stays true while others run, and each section of the call keeps it.
-/

set_option autoImplicit false

namespace PageEngine

open Std

/-! ## What a request does to the rows -/

/-- The row that a request changes, and what it changes it into, when `placed` is the tuple of its call. -/
def Request.rowChange (placed : Tuple) : Request → Option (RecordId × Option Bytes)
  | .insert _ tuple => placed.recordId.map fun r => (r, some tuple.data)
  | .delete tuple => tuple.recordId.map fun r => (r, none)
  | _ => none

/-! ## What a call knows of its request -/

/-- The tuple of the call fits the heap file and is the one to be inserted. -/
def Placing (r : Request) (tuple : Tuple) (x : HeapFile) : Prop :=
  ∃ table asked, r = .insert table asked ∧ tuple.data = asked.data ∧ asked.data.size = x.layout.width

/-- The slot of the page exists and is the one to be freed. -/
def Removing (d : Tables) (r : Request) (p : PageId) (x : HeapFile) (slot : Nat) : Prop :=
  d.catalog[p.table]? = some (.heap x) ∧ slot < x.layout.slots ∧
    ∃ asked, r = .delete asked ∧ asked.recordId = some ⟨p, slot⟩

/-- `y` is the page as `t` sees it, with the row changed that the request is about. -/
def Redone (P : Pool Tables) (h : History) (t : TxnId) (r : Request) (placed : Tuple) (p : PageId)
    (y : PageData) : Prop :=
  ∃ x slot row, P.storage.catalog[p.table]? = some (.heap x) ∧
    r.rowChange placed = some (⟨p, slot⟩, row) ∧
    ∀ s, x.layout.rowAt y s = if s = slot then row else x.layout.rowAt (shown P h t p) s

def RowUse (d : Tables) (r : Request) (tuple : Tuple) (p : PageId) : Use → Prop
  | .place i => Placing r tuple i.heap
  | .remove x slot => Removing d r p x slot
  | _ => True

/-- What a call that serves the request `r` with a tuple and a draft knows at its next section. -/
def RowActivity (P : Pool Tables) (h : History) (t : TxnId) (r : Request) (tuple : Tuple)
    (draft : Option PageData) : Activity → Prop
  | .start q => q = r ∧ ∀ table asked, r = .insert table asked → tuple = asked
  | .locking p _ use => RowUse P.storage r tuple p use
  | .sleeping _ p _ use => RowUse P.storage r tuple p use
  | .fetching p use => RowUse P.storage r tuple p use
  | .working p _ use => RowUse P.storage r tuple p use
  | .dropping i => Placing r tuple i.heap
  | .counting i => Placing r tuple i.heap
  | .growing i => Placing r tuple i.heap
  | .installing [f] => ∃ y, draft = some y ∧ Redone P h t r tuple (P.page f).id y
  | _ => True

/-- What holds of a call in flight that serves the request `r`. -/
structure RowTask (P : Pool Tables) (h : History) (t : TxnId) (r : Request) (k : Task) : Prop where
  plain : k.rule = none
  activity : RowActivity P h t r k.call.tuple k.draft k.call.activity

section Calls

variable {origin : PageId → PageData} {others : FrameId → Prop} {P P' : Pool Tables}
  {h h' : History} {t : TxnId} {r : Request} {k : Task} {tuple : Tuple} {p : PageId} {f : FrameId}

/-! ## While others run -/

theorem RowUse.mono {d d' : Tables} {use : Use} (hu : RowUse d r tuple p use)
    (hd : ∀ (s : TableId) (x : Store), d.catalog[s]? = some x → d'.catalog[s]? = some x) :
    RowUse d' r tuple p use := by
  cases use with
  | place i => exact hu
  | remove x slot => exact ⟨hd _ _ hu.1, hu.2⟩
  | holdLock => trivial
  | deliver => trivial
  | collect x pages next rows => trivial

theorem RowActivity.rely {draft : Option PageData} {edits : Bool} {a : Activity}
    (hr : RowActivity P h t r tuple draft a) (ha : ActivityInv P h t edits draft a)
    (hrely : Rely t P P' h h') : RowActivity P' h' t r tuple draft a := by
  cases a with
  | start q => exact hr
  | locking p m use => exact RowUse.mono hr hrely.catalog
  | sleeping ticket p m use => exact RowUse.mono hr hrely.catalog
  | fetching p use => exact RowUse.mono hr hrely.catalog
  | working p f use => exact RowUse.mono hr hrely.catalog
  | dropping i => exact hr
  | counting i => exact hr
  | growing i => exact hr
  | installing fs =>
    rcases ha.installing_cases with rfl | ⟨f, d, rfl, -, hd⟩
    · trivial
    · obtain ⟨y, hy, x, slot, row, hx, hrow, hrows⟩ := hr
      have hheld := hd.writable.held
      refine ⟨y, hy, ?_⟩
      rw [hrely.page_eq hd.image hheld]
      refine ⟨x, slot, row, hrely.catalog _ _ hx, hrow, fun s => ?_⟩
      rw [hrows s, shown, shown, hrely.own, hrely.contents _ hd.image.hasPage hheld]
  | releasing commit res => trivial
  | ending commit res => trivial
  | finished res => trivial

/-- **What a call knows of its request stays true while others run.** -/
theorem RowTask.rely (hr : RowTask P h t r k) (hk : TaskInv P h t k) (hrely : Rely t P P' h h') :
    RowTask P' h' t r k :=
  ⟨hr.plain, hr.activity.rely hk.activity hrely⟩

/-! ## What the sections of a call leave alone -/

/-- The first section of a request leaves the pool alone, unless it ends the transaction. -/
theorem pool_start (c : Call) (P : Pool Tables) {q : Request} (hq : ∀ b, q ≠ .complete b)
    (hthrough : (Action.request t q).ThroughPool) (hd : P.storage.Sound) : (c.start P q).1 = P := by
  cases q with
  | lock p m => rfl
  | get p a => rfl
  | scan x =>
    simp only [Call.start]
    split <;> rfl
  | insert table asked =>
    simp only [Call.start]
    split
    · rfl
    · rename_i s hs
      obtain ⟨x, rfl, -⟩ := hd.heap_of_store hs
      simp only [Call.startInsert]
      split <;> rfl
  | delete asked =>
    simp only [Call.start]
    split
    · rfl
    · split
      · rfl
      · rename_i s hs
        obtain ⟨x, rfl, -⟩ := hd.heap_of_store hs
        simp only [Call.startDelete]
        split
        · rfl
        · split <;> rfl
  | insertInto s asked => exact hthrough.elim
  | deleteFrom s asked => exact hthrough.elim
  | complete b => exact absurd rfl (hq b)

theorem storage_attemptLock (c : Call) (P : Pool Tables) (p : PageId) (m : Mode) (use : Use) :
    (c.attemptLock P p m use).1.storage = P.storage := by
  unfold Call.attemptLock
  split <;> rfl

theorem storage_useFrame (c : Call) (P : Pool Tables) (p : PageId) (f : FrameId) (use : Use) :
    (c.useFrame P p f use).1.storage = P.storage := by
  cases use with
  | holdLock => rfl
  | deliver => rfl
  | collect x pages next rows => rfl
  | place i =>
    simp only [Call.useFrame, Call.place]
    split
    · rfl
    · split <;> rfl
  | remove x slot =>
    simp only [Call.useFrame, Call.remove]
    split <;> rfl

/-- **Only growing a file and ending a transaction touch the storage.** -/
theorem storage_step (hd : P.storage.Sound) (hk : TaskInv P h t k)
    (hend : ∀ b, k.call.activity ≠ .start (.complete b)) (hgrow : ∀ i, k.call.activity ≠ .growing i) :
    (k.call.step P).1.storage = P.storage := by
  have hinv := hk.activity
  cases ha : k.call.activity with
  | start q =>
    rw [ha] at hinv
    simp only [Call.step, ha]
    rw [pool_start _ P (fun b hb => hend b (by rw [ha, hb])) hinv.1 hd]
  | locking p m use =>
    simp only [Call.step, ha]
    exact storage_attemptLock _ P p m use
  | sleeping ticket p m use =>
    simp only [Call.step, ha]
    split
    · rfl
    · exact storage_attemptLock _ P p m use
  | fetching p use =>
    rcases P.fetch_cases p with ⟨R, f, hR, -, -, hfetch⟩ | ⟨R, e, hR, hfetch⟩ |
        ⟨R, hR, -, -, hfetch⟩
    · simp only [Call.step, ha, hfetch]
      exact hR.storage
    · simp only [Call.step, ha, hfetch]
      exact hR.storage
    · simp only [Call.step, ha, hfetch]
      exact hR.storage
  | working p f use =>
    simp only [Call.step, ha]
    exact storage_useFrame _ P p f use
  | dropping i =>
    simp only [Call.step, ha, Pool.releasePage]
    cases (P.locks.release i.page k.call.txn).2 <;> rfl
  | counting i =>
    simp only [Call.step, ha]
    split <;> rfl
  | growing i => exact absurd ha (hgrow i)
  | installing fs =>
    rw [ha] at hinv
    rcases hinv.installing_cases with rfl | ⟨f, -, rfl, -, -⟩
    · simp only [Call.step, ha]
    · rcases Pool.install_cases P k.call.txn f with ⟨-, hinst⟩ | ⟨g, -, -, hinst⟩ | ⟨-, R, hR, hinst⟩
      · simp only [Call.step, ha, hinst]
        rfl
      · simp only [Call.step, ha, hinst]
        rfl
      · rcases hinst with ⟨e, hinst⟩ | hinst
        · simp only [Call.step, ha, hinst]
          exact hR.storage
        · simp only [Call.step, ha, hinst]
          exact hR.storage
  | releasing commit res =>
    simp only [Call.step, ha]
    rfl
  | ending commit res =>
    simp only [Call.step, ha]
    rfl
  | finished res => simp only [Call.step, ha]

/-- `d'` is `d`, where blank pages may have been added to tables. -/
structure Tables.Padded (d d' : Tables) : Prop where
  catalog : d'.catalog = d.catalog
  pages : ∀ s, d.pages s ≤ d'.pages s
  old : ∀ p, p.pageNo < d.pages p.table → d'.contents p = d.contents p
  new : ∀ p, d.pages p.table ≤ p.pageNo → p.pageNo < d'.pages p.table → d'.contents p = PageData.zeros

theorem Tables.padded_refl (d : Tables) : d.Padded d where
  catalog := rfl
  pages _ := Nat.le_refl _
  old _ _ := rfl
  new _ hle hlt := absurd hlt (Nat.not_lt.2 hle)

theorem Tables.Rewritten.padded {d d' : Tables} {s : TableId}
    (hrw : Tables.Rewritten d d' ⟨s, d.pages s⟩ PageData.zeros) : d.Padded d' where
  catalog := hrw.catalog
  pages r := by
    rw [hrw.pages]
    split
    · exact Nat.le_max_left _ _
    · exact Nat.le_refl _
  old p hp := by
    rw [hrw.contents, if_neg]
    rintro rfl
    exact Nat.lt_irrefl _ hp
  new p hle hlt := by
    -- The new page is the one past the end of the table.
    rw [hrw.contents, if_pos]
    rw [hrw.pages] at hlt
    split at hlt
    · rename_i ht
      have ht : p.table = s := ht
      have hlt : p.pageNo < max (d.pages p.table) (d.pages s + 1) := hlt
      rw [ht] at hle hlt
      have hno : p.pageNo = d.pages s := by omega
      rw [← hno, ← ht]
    · exact absurd hlt (Nat.not_lt.2 hle)

/-- **Growing a file adds a blank page to it, or changes nothing.** -/
theorem storage_growing (hd : P.storage.Sound) (hk : TaskInv P h t k) {i : Insertion}
    (hact : k.call.activity = .growing i) :
    P.storage.Padded (k.call.step P).1.storage ∧
    ∀ s, s ≠ i.heap.table → (k.call.step P).1.storage.pages s = P.storage.pages s := by
  have hreg := hk.activity
  rw [hact] at hreg
  rcases Tables.append_cases hd hreg rfl i.pages with ⟨e, happ⟩ | ⟨-, happ⟩ | ⟨-, -, disk, happ, hrw⟩
  · simp only [Call.step, hact, happ]
    exact ⟨Tables.padded_refl _, fun _ _ => trivial⟩
  · simp only [Call.step, hact, happ]
    exact ⟨Tables.padded_refl _, fun _ _ => trivial⟩
  · simp only [Call.step, hact, happ]
    exact ⟨hrw.padded, fun s hs => by rw [hrw.pages, if_neg hs]⟩

/-! ## The sections of a call -/

theorem RowActivity.tryNext {Q : Pool Tables} {draft : Option PageData} {c : Call} {i : Insertion}
    (hp : Placing r c.tuple i.heap) :
    RowActivity P h t r (c.tryNext Q i).tuple draft (c.tryNext Q i).activity := by
  unfold Call.tryNext
  split
  · exact hp
  · exact hp

theorem RowActivity.collectNext {draft : Option PageData} (c : Call) (x : HeapFile) (pages next : Nat)
    (rows : List Tuple) : RowActivity P h t r (c.collectNext x pages next rows).tuple draft
      (c.collectNext x pages next rows).activity := by
  unfold Call.collectNext
  split
  · trivial
  · trivial

/-- The first section of a request looks up what the call needs to know. -/
theorem RowActivity.start {draft : Option PageData} {c : Call} (hd : P.storage.Sound)
    (hthrough : (Action.request t r).ThroughPool)
    (htuple : ∀ table asked, r = .insert table asked → c.tuple = asked)
    (hcat : P'.storage.catalog = P.storage.catalog) :
    RowActivity P' h' t r (c.start P r).2.tuple draft (c.start P r).2.activity := by
  cases r with
  | lock p m => trivial
  | get p a => trivial
  | scan x =>
    simp only [Call.start]
    split
    · trivial
    · exact .collectNext c x _ 0 []
  | insert table asked =>
    simp only [Call.start]
    split
    · trivial
    · rename_i s hs
      obtain ⟨x, rfl, -⟩ := hd.heap_of_store hs
      simp only [Call.startInsert]
      split
      · rename_i hw
        have htuple := htuple table asked rfl
        exact ⟨table, asked, rfl, by rw [← htuple]; rfl, by rw [← htuple]; exact hw⟩
      · trivial
  | delete asked =>
    simp only [Call.start]
    split
    · trivial
    · rename_i q hq
      split
      · trivial
      · rename_i s hs
        obtain ⟨x, rfl, hx⟩ := hd.heap_of_store hs
        simp only [Call.startDelete]
        split
        · trivial
        · rename_i ht
          split
          · trivial
          · rename_i hslot
            refine ⟨?_, Nat.not_le.1 hslot, asked, rfl, hq⟩
            rw [hcat, Classical.not_not.1 ht]
            exact hx
  | insertInto s asked => exact hthrough.elim
  | deleteFrom s asked => exact hthrough.elim
  | complete b => trivial

theorem RowActivity.attemptLock {draft : Option PageData} {c : Call} {m : Mode} {use : Use}
    (hu : RowUse P'.storage r c.tuple p use) :
    RowActivity P' h' t r (c.attemptLock P p m use).2.tuple draft
      (c.attemptLock P p m use).2.activity := by
  unfold Call.attemptLock
  split
  · split
    · trivial
    · exact hu
  · exact hu
  · trivial

/-- A frame that is written to is a draft of the page with one row changed. -/
theorem RowActivity.draft (hh : Handed P h t p f) (hown : History.own t p h' = History.own t p h)
    {x : HeapFile} {slot : Nat} {row : Option Bytes}
    (hx : P.storage.catalog[p.table]? = some (.heap x))
    (hrow : r.rowChange tuple = some (⟨p, slot⟩, row)) {y : PageData}
    (hrows : ∀ s, x.layout.rowAt y s =
      if s = slot then row else x.layout.rowAt (P.page f).data s) :
    RowActivity (P.setPage f ((P.page f).withData y)) h' t r tuple
      (some ((P.setPage f ((P.page f).withData y)).page f).data) (.installing [f]) := by
  have hself : (P.setPage f ((P.page f).withData y)).page f = (P.page f).withData y := by
    rw [Pool.page_setPage, if_pos ⟨rfl, hh.image.index_lt⟩]
  have hid : ((P.setPage f ((P.page f).withData y)).page f).id = p := by
    rw [hself]
    exact hh.image.id_eq
  have hshown : shown (P.setPage f ((P.page f).withData y)) h' t p = (P.page f).data := by
    rw [hh.data_eq, shown, shown, hown]
    rfl
  refine ⟨y, by rw [hself]; rfl, ?_⟩
  rw [hid]
  exact ⟨x, slot, row, hx, hrow, fun s => by rw [hrows s, hshown]⟩

/-- The section that works on a page changes one row of it, if any. -/
theorem RowActivity.useFrame {c : Call} {use : Use} (huse : UseInv P h t p use)
    (hinst : c.installs = true) (hu : RowUse P.storage r c.tuple p use) (hh : Handed P h t p f)
    (hown : History.own t p h' = History.own t p h) :
    RowActivity (c.useFrame P p f use).1 h' t r (c.useFrame P p f use).2.tuple
      (some ((c.useFrame P p f use).1.page f).data) (c.useFrame P p f use).2.activity := by
  cases use with
  | holdLock => trivial
  | deliver => trivial
  | collect x pages next rows => exact .collectNext c x _ _ _
  | place i =>
    obtain ⟨rfl, hreg, -⟩ := huse
    obtain ⟨table, asked, rfl, hdata, hsize⟩ := hu
    cases hslot : i.heap.layout.freeSlot (P.page f).data with
    | some slot =>
      have hplaced : c.useFrame P i.page f (.place i) =
          (P.setPage f ((P.page f).withData (i.heap.layout.place (P.page f).data slot c.tuple.data)),
            { c with tuple := { c.tuple with recordId := some ⟨i.page, slot⟩ },
                     activity := .installing [f] }) := by
        simp only [Call.useFrame, Call.place, hslot, Call.changed, hinst, if_true, Call.goOn]
      have hrows := SlotLayout.rowAt_place (d := (P.page f).data)
        (SlotLayout.freeSlot_spec hslot).1 (hdata ▸ hsize)
      rw [hplaced]
      refine RowActivity.draft hh hown hreg ?_ hrows
      simp only [Request.rowChange, hdata, Option.map_some]
    | none =>
      simp only [Call.useFrame, Call.place, hslot]
      split
      · exact .tryNext ⟨table, asked, rfl, hdata, hsize⟩
      · exact ⟨table, asked, rfl, hdata, hsize⟩
  | remove x slot =>
    obtain ⟨hx, hslot, asked, rfl, hq⟩ := hu
    by_cases hused : SlotLayout.isUsed (P.page f).data slot = true
    · have hfreed : c.useFrame P p f (.remove x slot) =
          (P.setPage f ((P.page f).withData (SlotLayout.setUsed (P.page f).data slot false)),
            c.goOn (.installing [f])) := by
        simp only [Call.useFrame, Call.remove, if_pos hused, Call.changed, hinst, if_true]
      rw [hfreed]
      refine RowActivity.draft hh hown hx ?_ fun s => SlotLayout.rowAt_setUsed_false hslot s
      simp only [Request.rowChange, hq, Option.map_some]
    · simp only [Call.useFrame, Call.remove, if_neg hused]
      trivial

/-- No section registers a table. -/
theorem PoolInv.catalog_step (hi : PoolInv origin others P h) (hk : TaskInv P h t k) :
    (k.call.step P).1.storage.catalog = P.storage.catalog := by
  by_cases hend : ∃ b, k.call.activity = .start (.complete b)
  · obtain ⟨b, ha⟩ := hend
    have hstep : (k.call.step P).1 = (P.settlePages k.call.txn b).1 := by
      simp only [Call.step, ha, Call.start]
    rw [hstep]
    cases b with
    | true =>
      exact (Pool.flushHeld_spec hi.sound hi.filed
        (fun q g hg => (hi.cached q g hg).image.hasPage) _).2.catalog
    | false => exact congrArg Tables.catalog (Pool.restoreHeld_spec hi.filed _).1
  by_cases hgrow : ∃ i, k.call.activity = .growing i
  · obtain ⟨i, ha⟩ := hgrow
    simp only [Call.step, ha]
    split <;> rfl
  · rw [storage_step hi.sound hk (fun b hb => hend ⟨b, hb⟩) fun i hg => hgrow ⟨i, hg⟩]

/-- No section adds a page to a table, except for one that grows its file. -/
theorem PoolInv.pages_step (hi : PoolInv origin others P h) (hk : TaskInv P h t k) {s : TableId}
    (hgrow : ∀ i, k.call.activity = .growing i → i.heap.table ≠ s) :
    (k.call.step P).1.storage.pages s = P.storage.pages s := by
  by_cases hend : ∃ b, k.call.activity = .start (.complete b)
  · obtain ⟨b, ha⟩ := hend
    have hstep : (k.call.step P).1 = (P.settlePages k.call.txn b).1 := by
      simp only [Call.step, ha, Call.start]
    rw [hstep]
    cases b with
    | true =>
      exact (Pool.flushHeld_spec hi.sound hi.filed
        (fun q g hg => (hi.cached q g hg).image.hasPage) _).2.pages s
    | false => exact congrArg (Tables.pages · s) (Pool.restoreHeld_spec hi.filed _).1
  by_cases hgrows : ∃ i, k.call.activity = .growing i
  · obtain ⟨i, ha⟩ := hgrows
    exact (storage_growing hi.sound hk ha).2 s (Ne.symm (hgrow i ha))
  · rw [storage_step hi.sound hk (fun b hb => hend ⟨b, hb⟩) fun i hg => hgrows ⟨i, hg⟩]

/-- **The next section leaves of a call what it has to know of its request.** -/
theorem RowTask.step (hr : RowTask P h t r k) (hi : PoolInv origin others P h) (hk : TaskInv P h t k) :
    RowActivity (k.call.step P).1 (k.events P (k.call.step P).1 (k.call.step P).2 ++ h) t r
      (k.call.step P).2.tuple (k.nextDraft (k.call.step P).1) (k.call.step P).2.activity := by
  have hcat := hi.catalog_step hk
  have hmono : ∀ (s : TableId) (x : Store), P.storage.catalog[s]? = some x →
      (k.call.step P).1.storage.catalog[s]? = some x := fun s x hx => by rw [hcat]; exact hx
  have hinv := hk.activity
  have hact := hr.activity
  cases ha : k.call.activity with
  | start q =>
    rw [ha] at hact hinv
    obtain ⟨rfl, htuple⟩ := hact
    simp only [Call.step, ha] at hcat ⊢
    exact .start hi.sound hinv.1 htuple hcat
  | locking p m use =>
    rw [ha] at hact
    have hnext := RowUse.mono hact hmono
    simp only [Call.step, ha] at hnext ⊢
    exact .attemptLock hnext
  | sleeping ticket p m use =>
    rw [ha] at hact
    have hnext := RowUse.mono hact hmono
    by_cases hs : P.locks.sleeps ticket = true
    · simp only [Call.step, ha, if_pos hs] at hnext ⊢
      exact hnext
    · simp only [Call.step, ha, if_neg hs] at hnext ⊢
      exact .attemptLock hnext
  | fetching p use =>
    rw [ha] at hact
    have hnext := RowUse.mono hact hmono
    rcases hfetch : P.fetch p with ⟨Q, res⟩
    cases res with
    | error e =>
      simp only [Call.step, ha, hfetch]
      trivial
    | ok f =>
      simp only [Call.step, ha, hfetch] at hnext ⊢
      exact hnext
  | working p f use =>
    rw [ha] at hact hinv
    obtain ⟨-, huse, hh, -⟩ := hinv
    simp only [Call.step, ha, Task.nextDraft]
    refine .useFrame huse hk.installs hact hh ?_
    simp only [Task.events, ha]
    rfl
  | dropping i =>
    rw [ha] at hact
    simp only [Call.step, ha]
    split
    · trivial
    · exact .tryNext hact
  | counting i =>
    rw [ha] at hact
    simp only [Call.step, ha]
    split
    · trivial
    · exact .tryNext hact
  | growing i =>
    rw [ha] at hact
    simp only [Call.step, ha]
    split
    · trivial
    · exact hact
  | installing fs =>
    rw [ha] at hinv
    rcases hinv.installing_cases with rfl | ⟨f, -, rfl, -, -⟩
    · simp only [Call.step, ha]
      trivial
    · simp only [Call.step, ha]
      split
      · trivial
      · trivial
  | releasing commit res =>
    simp only [Call.step, ha]
    trivial
  | ending commit res =>
    simp only [Call.step, ha]
    trivial
  | finished res =>
    simp only [Call.step, ha]
    trivial

end Calls

end PageEngine
