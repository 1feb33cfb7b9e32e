import PageEngine.Proofs.World.Guarding
import PageEngine.Proofs.World.Snapshot

/-!
# `Proofs/World/Phantoms.lean` — scanning a table twice

Once a scan has returned, its transaction holds every page that the file had, and with the first of them it keeps
the inserts of all others out. So the rows of the table are changed by itself only:

> **a later scan returns the same rows in the same order**, apart from the rows that the transaction has put
> there or taken away in between.

What a scan returns is a listing of the rows that are live for its transaction (`HeapFile.listing`), so it is
enough to say what becomes of these.
-/

set_option autoImplicit false

namespace PageEngine

open Std

/-! ## Listings -/

theorem SlotLayout.tuples_eq (l : SlotLayout) (p : PageId) (y : PageData) :
    l.tuples p y = (List.range l.slots).filterMap fun s => (l.rowAt y s).map fun row => ⟨some ⟨p, s⟩, row⟩ := by
  rw [tuples, usedSlots, ← List.filterMap_eq_map, ← List.filterMap_eq_filter, List.filterMap_filterMap]
  refine List.filterMap_congr fun s hs => ?_
  have hlt := List.mem_range.1 hs
  by_cases hused : isUsed y s = true
  · simp [rowAt, hlt, hused]
  · simp [rowAt, hused]

namespace HeapFile

variable {x : HeapFile} {n n' : Nat} {live live' : RecordId → Option Bytes} {keep : RecordId → Bool}

/-- The rows on the first `n` pages of a file, in the order of pages and slots. -/
def listing (x : HeapFile) (n : Nat) (live : RecordId → Option Bytes) : List Tuple :=
  (List.range n).flatMap fun i => (List.range x.layout.slots).filterMap fun s =>
    (live ⟨⟨x.table, i⟩, s⟩).map fun row => ⟨some ⟨⟨x.table, i⟩, s⟩, row⟩

theorem listing_congr (h : ∀ r : RecordId, r.page.table = x.table → live' r = live r) :
    x.listing n live' = x.listing n live := by
  unfold listing
  simp only [h]

/-- Pages without rows do not show. -/
theorem listing_of_le (hle : n ≤ n') (h : ∀ r : RecordId, r.page.table = x.table → n ≤ r.page.pageNo → live r = none) :
    x.listing n' live = x.listing n live := by
  obtain ⟨m, rfl⟩ := Nat.exists_eq_add_of_le hle
  have hnone : ∀ i ∈ List.range m, ((List.range x.layout.slots).filterMap fun s =>
      (live ⟨⟨x.table, n + i⟩, s⟩).map fun row => (⟨some ⟨⟨x.table, n + i⟩, s⟩, row⟩ : Tuple)) = [] := by
    intro i _
    rw [List.filterMap_eq_nil_iff]
    intro s _
    rw [h ⟨⟨x.table, n + i⟩, s⟩ rfl (Nat.le_add_right n i), Option.map_none]
  rw [listing, List.range_add, List.flatMap_append, List.flatMap_map, List.flatMap_eq_nil_iff.2 hnone,
    List.append_nil, listing]

/-- The rows with some record ids. -/
theorem filter_listing (x : HeapFile) (n : Nat) (live : RecordId → Option Bytes) (keep : RecordId → Bool) :
    (x.listing n live).filter (fun y => y.recordId.all keep) =
      x.listing n fun r => if keep r then live r else none := by
  rw [listing, List.filter_flatMap, listing]
  refine List.flatMap_congr fun i _ => ?_
  rw [List.filter_filterMap]
  refine List.filterMap_congr fun s _ => ?_
  cases live ⟨⟨x.table, i⟩, s⟩ <;> simp [Option.filter]

/-- **Two listings agree in the rows that are the same**, if the other rows of the shorter one are on its
pages. -/
theorem filter_listing_eq (hle : n ≤ n')
    (hsame : ∀ r : RecordId, r.page.table = x.table → keep r = true → live' r = live r)
    (hnone : ∀ r : RecordId, r.page.table = x.table → n ≤ r.page.pageNo → live r = none) :
    (x.listing n' live').filter (fun y => y.recordId.all keep) =
      (x.listing n live).filter (fun y => y.recordId.all keep) := by
  have hlonger : x.listing n' (fun r => if keep r then live r else none) =
      x.listing n fun r => if keep r then live r else none :=
    listing_of_le hle fun r hr hp => by rw [hnone r hr hp, ite_self]
  rw [filter_listing, filter_listing, ← hlonger]
  refine listing_congr fun r hr => ?_
  split
  · rename_i hkeep
    exact hsame r hr hkeep
  · rfl

end HeapFile

/-- **What a scan has collected is the listing of the live rows.** -/
theorem Collected.eq_listing {origin : RecordId → Option Bytes} {P : Pool Tables} {h : History} {L : RowHistory}
    {t : TxnId} {x : HeapFile} {n : Nat} {rows : List Tuple} (hc : Collected P h t x n rows)
    (ha : RowsAgree origin P.storage h L) : rows = x.listing n fun r => RowHistory.live origin t r L := by
  rw [hc.rows_eq, HeapFile.listing]
  refine List.flatMap_congr fun i hi => ?_
  have hlt := List.mem_range.1 hi
  rw [SlotLayout.tuples_eq]
  refine List.filterMap_congr fun s _ => ?_
  rw [ha.rowAt_shown hc.registered (hc.hasPage i hlt).1 t s]

namespace RowHistory

variable {t : TxnId} {r : RecordId} {E L : RowHistory}

/-- The row is not one that `t` has put there. -/
def leaves (t : TxnId) (E : RowHistory) (y : Tuple) : Bool := y.recordId.all fun r => (own t r E).isNone

theorem own_append (hE : ∀ c, .ended t c ∉ E) : own t r (E ++ L) = (own t r E).or (own t r L) := by
  induction E with
  | nil => rfl
  | cons e E ih =>
    have hrest := ih fun c hc => hE c (List.mem_cons_of_mem _ hc)
    cases e with
    | changed u q row =>
      simp only [List.cons_append, own, hrest]
      split <;> rfl
    | ended u c =>
      have hu : u ≠ t := fun hu => hE c (hu ▸ List.mem_cons_self)
      simp only [List.cons_append, own, hrest, if_neg hu]
    | registered table rows => exact hrest

end RowHistory

/-! ## Until the transaction ends -/

/-- Each of the actions can happen and leaves the bytes of pages to inserts and deletes, and none of them asks
for the end of `t`. -/
def World.Proceeds (t : TxnId) (w : World) : List Action → Prop
  | [] => True
  | a :: as => a.Enabled w ∧ a.RowWise ∧ (∀ b, a ≠ .request t (.complete b)) ∧ (w.act a).Proceeds t as

/-- While a call of a transaction lasts it does not end. -/
theorem World.Lasts.proceeds {w : World} {t : TxnId} {as : List Action} (h : w.Lasts Action.RowWise t as) :
    w.Proceeds t as := by
  induction as generalizing w with
  | nil => trivial
  | cons a as ih =>
    obtain ⟨hsome, ha, hkind, hrest⟩ := h
    refine ⟨ha, hkind, ?_, ih hrest⟩
    rintro b rfl
    rw [show w.tasks t = none from ha] at hsome
    cases hsome

theorem World.proceeds_append {w : World} {t : TxnId} {as bs : List Action} :
    w.Proceeds t (as ++ bs) ↔ w.Proceeds t as ∧ (w.run as).Proceeds t bs := by
  induction as generalizing w with
  | nil => exact ⟨fun h => ⟨trivial, h⟩, And.right⟩
  | cons a as ih =>
    show (_ ∧ _ ∧ _ ∧ (w.act a).Proceeds t (as ++ bs)) ↔ _
    rw [ih]
    simp only [World.Proceeds, run, List.foldl_cons, and_assoc]

/-- Only a commit or an abort is seen as the end of a transaction. -/
theorem Task.ended_of_mem_events {k : Task} {P P' : Pool Tables} {c : Call} {t : TxnId} {b : Bool}
    (h : .ended t b ∈ k.events P P' c) :
    k.call.txn = t ∧ k.call.activity = .start (.complete b) := by
  unfold events at h
  split at h
  · rename_i b' hact
    obtain ⟨rfl, rfl⟩ := Event.ended.inj (List.mem_singleton.1 h)
    exact ⟨rfl, hact⟩
  · cases List.mem_singleton.1 h
  · split at h
    · cases h
    · cases List.mem_singleton.1 h
  · split at h
    · cases List.mem_singleton.1 h
    · cases h
  · cases h

theorem Event.ended_of_mem_rowEvents {asked : Option Request} {placed : Tuple} {e : Event} {t : TxnId}
    {b : Bool} (h : .ended t b ∈ e.rowEvents asked placed) : e = .ended t b := by
  cases e with
  | ended u c =>
    obtain ⟨rfl, rfl⟩ := RowEvent.ended.inj (List.mem_singleton.1 h)
    rfl
  | stored u p y =>
    simp only [rowEvents, Option.mem_toList, Option.map_eq_some_iff] at h
    obtain ⟨x, -, hx⟩ := h
    cases hx
  | _ => cases h

/-- A transaction is served while another one goes on. -/
theorem World.proceeds_serve {w : World} {t u : TxnId} (hidle : w.tasks u = none) {r : Request}
    (hr : (Action.request u r).RowWise) (hend : ∀ b, r ≠ .complete b) (n : Nat) :
    w.Proceeds t (.request u r :: List.replicate n (.advance u)) := by
  refine ⟨hidle, hr, fun b hb => hend b (by cases hb; rfl), ?_⟩
  generalize w.act (.request u r) = v
  induction n generalizing v with
  | zero => trivial
  | succ n ih => exact ⟨trivial, trivial, by simp, ih _⟩

namespace Ledger

variable {d : Tables} {ℓ : Ledger} {t u : TxnId} {s : TableId} {m n : Nat} {a : Action} {as : List Action}
  {r : RecordId}

theorem Inv.run_proceeds (hℓ : ℓ.Inv d) (h : ℓ.world.Proceeds t as) : (ℓ.run as).Inv d := by
  induction as generalizing ℓ with
  | nil => exact hℓ
  | cons a as ih => exact ih (hℓ.act h.1 h.2.1) h.2.2.2

theorem Reachable.run {P : Pool Tables} (hℓ : Reachable P ℓ) (h : ℓ.world.Proceeds t as) :
    Reachable P (ℓ.run as) := by
  induction as generalizing ℓ with
  | nil => exact hℓ
  | cons a as ih => exact ih (hℓ.step h.1 h.2.1) h.2.2.2

/-- What an advance does: nothing without a call, and else it runs a section. -/
theorem Inv.advance_cases (hℓ : ℓ.Inv d) (u : TxnId) :
    (ℓ.world.tasks u = none ∧ ℓ.world.act (.advance u) = ℓ.world) ∨
    ∃ k q, ℓ.world.tasks u = some k ∧ ℓ.asked u = some q ∧
      RowTask ℓ.world.pool ℓ.world.history u q k := by
  cases hk : ℓ.world.tasks u with
  | none => exact .inl ⟨rfl, by simp only [World.act, World.advance, hk]⟩
  | some k =>
    obtain ⟨q, hq, hrow⟩ := hℓ.tasks u k hk
    exact .inr ⟨k, q, rfl, hq, hrow⟩

/-- **The table stays guarded**, as long as the transaction is not asked to end. -/
theorem Inv.guarded_act (hℓ : ℓ.Inv d) (hg : ℓ.world.Guarded t s m n) (ha : a.Enabled ℓ.world)
    (hkind : a.RowWise) (hend : ∀ b, a ≠ .request t (.complete b)) : (ℓ.act a).world.Guarded t s m n := by
  cases a with
  | request u q => exact hg.request hkind fun hu b hb => hend b (by rw [hu, hb])
  | edit u p rule => exact hkind.elim
  | register file => exact hg.register hℓ.world ha
  | advance u =>
    rcases hℓ.advance_cases u with ⟨-, hsame⟩ | ⟨k, q, hk, -, hrow⟩
    · show (ℓ.world.act (.advance u)).Guarded t s m n
      rw [hsame]
      exact hg
    · exact hg.advance hℓ.world hk hrow.plain

theorem Inv.guarded_run (hℓ : ℓ.Inv d) (hg : ℓ.world.Guarded t s m n) (h : ℓ.world.Proceeds t as) :
    (ℓ.run as).world.Guarded t s m n := by
  induction as generalizing ℓ with
  | nil => exact hg
  | cons a as ih =>
    exact ih (hℓ.act h.1 h.2.1) (hℓ.guarded_act hg h.1 h.2.1 h.2.2.1) h.2.2.2

/-- **The number of pages of a guarded table changes only by an insert of the transaction that guards it.** -/
theorem Inv.pages_act (hℓ : ℓ.Inv d) (hg : ℓ.world.Guarded t s m n) (ha : a.Enabled ℓ.world)
    (hkind : a.RowWise) :
    (ℓ.act a).world.pool.storage.pages s = ℓ.world.pool.storage.pages s ∨
    a = .advance t ∧ ∃ k i table y, ℓ.world.tasks t = some k ∧ ℓ.asked t = some (.insert table y) ∧
      k.call.activity = .growing i ∧ i.heap.table = s := by
  cases a with
  | request u q => exact .inl rfl
  | edit u p rule => exact hkind.elim
  | register file =>
    exact .inl (Tables.pages_register
      (Tables.Fresh.table_ne hℓ.world.pool.sound ha (Nat.lt_of_lt_of_le hg.counted hg.pages)))
  | advance u =>
    rcases hℓ.advance_cases u with ⟨-, hsame⟩ | ⟨k, q, hk, hq, hrow⟩
    · left
      show (ℓ.world.act (.advance u)).pool.storage.pages s = _
      rw [hsame]
    by_cases hgrows : ∃ i, k.call.activity = .growing i ∧ i.heap.table = s
    · obtain ⟨i, hact, hs⟩ := hgrows
      have hu : u = t := by
        by_contra hu
        have hwaits := hg.waits u k hu hk
        rw [hact] at hwaits
        exact hwaits hs
      subst hu
      have hplacing := hrow.activity
      rw [hact] at hplacing
      obtain ⟨table, y, rfl, -, -⟩ := hplacing
      exact .inr ⟨rfl, k, i, table, y, hk, hq, hact, hs⟩
    · exact .inl (hℓ.world.pages_advance hk hrow.plain fun i hact hs => hgrows ⟨i, hact, hs⟩)

/-- **The stored rows of a table do not change while all of its old pages are held.** -/
theorem Inv.rowAt_act (hℓ : ℓ.Inv d) (hg : ℓ.world.Guarded t s n n) (ha : a.Enabled ℓ.world)
    (hkind : a.RowWise) (hend : ∀ b, a ≠ .request t (.complete b)) (hr : r.page.table = s) :
    (ℓ.act a).world.pool.storage.rowAt r = ℓ.world.pool.storage.rowAt r := by
  have hg' := hℓ.guarded_act hg ha hkind hend
  subst hr
  cases a with
  | request u q => rfl
  | edit u p rule => exact hkind.elim
  | register file =>
    have hne := Tables.Fresh.table_ne hℓ.world.pool.sound ha (Nat.lt_of_lt_of_le hg.counted hg.pages)
    exact Tables.rowAt_congr (by
      show (ℓ.world.pool.storage.register (.heap file)).catalog[r.page.table]? = _
      rw [Tables.catalog_register, if_neg hne]) (Tables.pages_register hne) (Tables.contents_register hne)
  | advance u =>
    rcases hℓ.advance_cases u with ⟨-, hsame⟩ | ⟨k, q, hk, -, hrow⟩
    · show (ℓ.world.act (.advance u)).pool.storage.rowAt r = _
      rw [hsame]
    have hcat : (ℓ.world.advance u).pool.storage.catalog = ℓ.world.pool.storage.catalog := by
      rw [World.advance_of_plain hk hrow.plain]
      exact (hℓ.world.pool_of_task hk).catalog_step (hℓ.world.tasks u k hk)
    obtain ⟨hle, -⟩ := hℓ.world.padded_advance hk hrow.plain r.page.table
    obtain ⟨x, hx, -⟩ := hℓ.world.pool.sound.heap_of_lt (p := ⟨r.page.table, 0⟩)
      (Nat.lt_of_lt_of_le hg.counted hg.pages)
    show (ℓ.world.advance u).pool.storage.rowAt r = _
    by_cases hlt : r.page.pageNo < ℓ.world.pool.storage.pages r.page.table
    · rw [Tables.rowAt_of_heap hx hlt, Tables.rowAt_of_heap (hcat ▸ hx) (Nat.lt_of_lt_of_le hlt hle)]
      congr 1
      refine hℓ.world.contents_advance hk hrow.plain (fun hends => ?_) hlt
      -- A transaction that ends is another one, which has not changed this page.
      have hu : u ≠ t := by
        rintro rfl
        obtain ⟨b, hact⟩ := hends
        have hspares := hg.spares k hk
        rw [hact] at hspares
        exact absurd rfl (hspares b)
      rcases Nat.lt_or_ge r.page.pageNo n with hold | hnew
      · exact hℓ.world.pool.own_none_of_held (hg.held r.page ⟨rfl, hold⟩) hu
      · exact hg.untouched u r.page hu ⟨rfl, hnew⟩
    · -- There was no row there, and there is none on a blank page.
      have hle' := Nat.not_lt.1 hlt
      rw [Tables.rowAt_of_le hle']
      by_cases hlt' : r.page.pageNo < (ℓ.world.advance u).pool.storage.pages r.page.table
      · have hblank : (ℓ.world.advance u).pool.storage.contents r.page = PageData.zeros :=
          hg'.blank r.page ⟨rfl, Nat.le_trans hg.pages hle'⟩ hlt'
        rw [Tables.rowAt_of_heap (hcat ▸ hx) hlt', hblank, SlotLayout.rowAt_zeros]
      · exact Tables.rowAt_of_le (Nat.not_lt.1 hlt')

/-- The transaction that guards the table does not end. -/
theorem Inv.not_ended_newRows (hℓ : ℓ.Inv d) (hg : ℓ.world.Guarded t s m n) (a : Action) (c : Bool) :
    .ended t c ∉ ℓ.newRows a := by
  cases a with
  | request u q => exact List.not_mem_nil
  | edit u p rule => exact List.not_mem_nil
  | register file => simp [newRows]
  | advance u =>
    cases hk : ℓ.world.tasks u with
    | none => simp [newRows, hk]
    | some k =>
      simp only [newRows, hk]
      intro hmem
      obtain ⟨e, he, hrow⟩ := List.mem_flatMap.1 hmem
      obtain ⟨rfl, hact⟩ := Task.ended_of_mem_events (Event.ended_of_mem_rowEvents hrow ▸ he)
      obtain rfl := (hℓ.world.tasks u k hk).txn
      have hspares := hg.spares k hk
      rw [hact] at hspares
      exact hspares c rfl

/-- The row events of a run in which a transaction holds all old pages of a table: its end is not among them, and
the rows that are stored stay the same. -/
theorem Inv.stored_run (hℓ : ℓ.Inv d) (hg : ℓ.world.Guarded t s n n) (h : ℓ.world.Proceeds t as) :
    ∃ news, (ℓ.run as).rows = news ++ ℓ.rows ∧ (∀ c, .ended t c ∉ news) ∧
      ∀ r : RecordId, r.page.table = s →
        (ℓ.run as).world.pool.storage.rowAt r = ℓ.world.pool.storage.rowAt r := by
  induction as generalizing ℓ with
  | nil => exact ⟨[], rfl, fun _ => List.not_mem_nil, fun _ _ => rfl⟩
  | cons a as ih =>
    obtain ⟨ha, hkind, hend, hrest⟩ := h
    obtain ⟨news, hrows, hnone, hstored⟩ := ih (hℓ.act ha hkind) (hℓ.guarded_act hg ha hkind hend) hrest
    refine ⟨news ++ ℓ.newRows a, ?_, ?_, fun r hr => ?_⟩
    · rw [List.append_assoc]
      exact hrows
    · intro c hc
      rcases List.mem_append.1 hc with hc | hc
      · exact hnone c hc
      · exact hℓ.not_ended_newRows hg a c hc
    · exact (hstored r hr).trans (hℓ.rowAt_act hg ha hkind hend hr)

/-- **What becomes of the rows of a table while all of its old pages are held**: the transaction that holds them
changes its rows, and nobody else's changes show. -/
theorem Inv.live_run (hℓ : ℓ.Inv d) (hg : ℓ.world.Guarded t s n n) (h : ℓ.world.Proceeds t as) :
    ∃ news, (ℓ.run as).rows = news ++ ℓ.rows ∧
      ∀ r : RecordId, r.page.table = s →
        (ℓ.run as).live d t r = (RowHistory.own t r news).getD (ℓ.live d t r) := by
  obtain ⟨news, hrows, hnone, hstored⟩ := hℓ.stored_run hg h
  refine ⟨news, hrows, fun r hr => ?_⟩
  -- The rows that are stored are the committed ones.
  have hcommitted : RowHistory.committed d.rowAt r (ℓ.run as).rows = RowHistory.committed d.rowAt r ℓ.rows := by
    rw [← (hℓ.run_proceeds h).rows.stored, ← hℓ.rows.stored]
    exact hstored r hr
  rw [live, live, RowHistory.live, RowHistory.live, hcommitted, hrows, RowHistory.own_append hnone]
  cases RowHistory.own t r news <;> rfl

/-! ## The first scan -/

section FirstScan

variable {P : Pool Tables} {x : HeapFile} {rows : List Tuple}

theorem asked_run (h : ℓ.world.Lasts Action.RowWise t as) : (ℓ.run as).asked t = ℓ.asked t := by
  induction as generalizing ℓ with
  | nil => rfl
  | cons a as ih =>
    obtain ⟨hsome, ha, hkind, hrest⟩ := h
    rw [show ℓ.run (a :: as) = (ℓ.act a).run as from rfl, ih hrest]
    cases a with
    | request u q =>
      -- Whoever asks for something has no call in flight.
      have hu : t ≠ u := by
        rintro rfl
        rw [show ℓ.world.tasks t = none from ha] at hsome
        cases hsome
      exact Function.update_of_ne hu _ _
    | _ => rfl

theorem Scans.asked (h : Scans P ℓ t x as rows) (hℓ : ℓ.Inv d) : ℓ.asked t = some (.scan x) := by
  obtain ⟨k, hk, hstart⟩ := h.begins
  obtain ⟨q, hq, hrow⟩ := hℓ.tasks t k hk
  have hact := hrow.activity
  rw [hstart] at hact
  rw [hq, ← hact.1]

/-- While a transaction scans a table that it guards, the number of pages stays the same. -/
theorem Inv.pages_scan (hℓ : ℓ.Inv d) (hg : ℓ.world.Guarded t s m n) (hasked : ℓ.asked t = some (.scan x))
    (h : ℓ.world.Lasts Action.RowWise t as) :
    (ℓ.run as).world.pool.storage.pages s = ℓ.world.pool.storage.pages s := by
  induction as generalizing ℓ with
  | nil => rfl
  | cons a as ih =>
    have hone : ℓ.world.Lasts Action.RowWise t [a] := ⟨h.1, h.2.1, h.2.2.1, trivial⟩
    obtain ⟨-, ha, hkind, hrest⟩ := h
    have hpages : (ℓ.act a).world.pool.storage.pages s = ℓ.world.pool.storage.pages s := by
      rcases hℓ.pages_act hg ha hkind with hsame | ⟨-, k, i, table, y, -, hins, -⟩
      · exact hsame
      · rw [hasked] at hins
        cases hins
    rw [← hpages]
    exact ih (hℓ.act ha hkind) (hℓ.guarded_run hg hone.proceeds) ((asked_run hone).trans hasked) hrest

/-- A transaction that holds the first page guards the table, if no insert of others is on its way. -/
theorem Scans.guarded (h : Scans P ℓ t x as rows) (hℓ : ℓ.Inv d)
    (hpages : 0 < ℓ.world.pool.storage.pages x.table)
    (hheld : (ℓ.world.pool.locks.modeOf ⟨x.table, 0⟩ t).isSome)
    (halone : ∀ u table y, u ≠ t → (ℓ.world.tasks u).isSome → ℓ.asked u ≠ some (.insert table y)) :
    ℓ.world.Guarded t x.table 1 (ℓ.world.pool.storage.pages x.table) where
  first := Nat.one_pos
  counted := hpages
  pages := Nat.le_refl _
  held := by
    rintro ⟨table, no⟩ ⟨rfl, hno⟩
    obtain rfl : no = 0 := Nat.lt_one_iff.1 hno
    exact hheld
  spares k hk := by
    obtain ⟨k', hk', hstart⟩ := h.begins
    obtain rfl := Option.some.inj (hk.symm.trans hk')
    rw [hstart]
    exact fun b hb => by cases hb
  waits u k hu hk := by
    obtain ⟨q, hq, hrow⟩ := hℓ.tasks u k hk
    refine hrow.activity.waits (hℓ.world.tasks u k hk).activity ?_ ?_
    · rintro table y rfl
      exact halone u table y hu (by rw [hk]; rfl) hq
    · rintro p ⟨hp, hle⟩ hpage
      exact absurd hpage.1 (Nat.not_lt.2 (hp ▸ hle))
  blank := fun p hp hlt => absurd hlt (Nat.not_lt.2 hp.2)
  untouched := fun u p _ hp => by
    cases hown : History.own u p ℓ.world.history with
    | none => rfl
    | some y =>
      obtain ⟨hp, hle⟩ := hp
      exact absurd (hℓ.world.pool.hasPage_of_own hown).1 (Nat.not_lt.2 (hp ▸ hle))

/-- **When the scan has returned, its transaction holds the pages that the file had.** -/
theorem Scans.guarded_after (h : Scans P ℓ t x as rows) (hℓ : ℓ.Inv d)
    (hg : ℓ.world.Guarded t x.table m (ℓ.world.pool.storage.pages x.table)) :
    ((ℓ.run as).act (.advance t)).world.Guarded t x.table (ℓ.world.pool.storage.pages x.table)
      (ℓ.world.pool.storage.pages x.table) := by
  have hℓ' := hℓ.run h.lasts
  have hg' := hℓ.guarded_run hg h.lasts.proceeds
  have hcollected := h.collected hℓ
  have hall : (ℓ.run as).world.Guarded t x.table (ℓ.world.pool.storage.pages x.table)
      (ℓ.world.pool.storage.pages x.table) := by
    refine { hg' with first := hg.counted, held := ?_, spares := ?_ }
    · rintro ⟨table, no⟩ ⟨rfl, hno⟩
      exact hcollected.held no hno
    · intro k hk
      obtain ⟨q, hq, hrow⟩ := hℓ'.tasks t k hk
      refine hrow.activity.spares ?_ (hg'.spares k hk)
      rintro table y rfl
      rw [asked_run h.lasts, h.asked hℓ] at hq
      cases hq
  exact hℓ'.guarded_act hall trivial trivial (by simp)

/-- When a scan of a guarded table returns, every live row is on a page that it has counted. -/
theorem Scans.pageNo_lt (h : Scans P ℓ t x as rows) (hℓ : ℓ.Inv d) (hg : ℓ.world.Guarded t x.table m n)
    (hr : r.page.table = x.table) {row : Bytes} (hrow : (ℓ.run as).live d t r = some row) :
    r.page.pageNo < ℓ.world.pool.storage.pages x.table := by
  have hlt := (hℓ.run h.lasts).pageNo_lt_of_live hrow
  rwa [hr, hℓ.pages_scan hg (h.asked hℓ) h.lasts] at hlt

/-- **A scan of a guarded table returns the live rows**, all of them. -/
theorem Scans.mem_iff_live (h : Scans P ℓ t x as rows) (hℓ : ℓ.Inv d) (hg : ℓ.world.Guarded t x.table m n)
    (hr : r.page.table = x.table) (row : Bytes) :
    ⟨some r, row⟩ ∈ rows ↔ (ℓ.run as).live d t r = some row := by
  rw [h.mem_iff hℓ]
  constructor
  · rintro ⟨q, row', heq, -, -, hrow⟩
    cases heq
    exact hrow
  · intro hrow
    exact ⟨r, row, rfl, hr, h.pageNo_lt hℓ hg hr hrow, hrow⟩

theorem Scans.eq_listing (h : Scans P ℓ t x as rows) (hℓ : ℓ.Inv d) :
    rows = x.listing (ℓ.world.pool.storage.pages x.table) ((ℓ.run as).live d t) :=
  (h.collected hℓ).eq_listing (hℓ.run h.lasts).rows

end FirstScan

/-! ## An insert in vain -/

/-- A scan of a file of one page, which is granted and cached. -/
theorem scan_alone {L : LockTable} {Q : Pool Tables} {f : FrameId} {x : HeapFile}
    (hk : ℓ.world.tasks t = some { call := Call.ofRequest t (.scan x) })
    (hnum : x.numPages ℓ.world.pool.storage.disk = .ok 1)
    (hgrant : ℓ.world.pool.locks.attempt ⟨x.table, 0⟩ t .shared = (L, .granted))
    (hfetch : (ℓ.world.pool.withLocks L).fetch ⟨x.table, 0⟩ = (Q, .ok f)) :
    (∃ k rows, (ℓ.run (List.replicate 3 (.advance t))).world.tasks t = some k ∧
      (k.call.step (ℓ.run (List.replicate 3 (.advance t))).world.pool).2.activity =
        .finished (.ok (.rows rows))) ∧
    ((ℓ.run (List.replicate 3 (.advance t))).act (.advance t)).world.pool = Q ∧
    ((ℓ.run (List.replicate 3 (.advance t))).act (.advance t)).world.tasks =
      Function.update ℓ.world.tasks t none ∧
    (ℓ.run (List.replicate 3 (.advance t))).rows = ℓ.rows ∧
    ((ℓ.run (List.replicate 3 (.advance t))).act (.advance t)).rows = ℓ.rows := by
  simp [run, act, newRows, nextAsked, World.act, World.advance, World.runSection, Call.ofRequest, Call.step,
    Call.start, Call.collectNext, Call.useFrame, Call.goOn, Call.attemptLock, Call.finish, Task.events,
    Task.after, Task.nextDraft, Call.result?, Event.rowEvents, hk, hnum, hgrant, hfetch]

/-- An insert that has to wait for the first page. -/
theorem insert_sleeps {L : LockTable} {x : HeapFile} {y : Tuple} {pages ticket : Nat}
    (hcat : ℓ.world.pool.storage.catalog[x.table]? = some (.heap x)) (hsize : y.data.size = x.layout.width)
    (hnum : x.numPages ℓ.world.pool.storage.disk = .ok pages) (hn : 0 < pages)
    (hsleeps : ℓ.world.pool.locks.attempt ⟨x.table, 0⟩ t .exclusive = (L, .sleeps ticket)) :
    (ℓ.run (.request t (.insert x.table y) :: List.replicate 3 (.advance t))).world.pool =
      ℓ.world.pool.withLocks L ∧
    (ℓ.run (.request t (.insert x.table y) :: List.replicate 3 (.advance t))).world.tasks =
      Function.update ℓ.world.tasks t (some { call := ⟨t, .sleeping ticket ⟨x.table, 0⟩ .exclusive
        (.place ⟨x, pages, 0, ℓ.world.pool.locks.holds ⟨x.table, 0⟩ t⟩), y, true⟩ }) ∧
    (ℓ.run (.request t (.insert x.table y) :: List.replicate 3 (.advance t))).rows = ℓ.rows := by
  simp [run, act, newRows, nextAsked, World.act, World.setTask, World.advance, World.runSection,
    Call.ofRequest, Call.step, Call.start, Call.startInsert, Call.tryNext, Call.goOn, Call.attemptLock,
    Task.events, Task.after, Task.nextDraft, Call.result?, Tables.store, Insertion.page, hcat, hsize, hnum,
    hn, hsleeps]

/-- Transaction 1, which has put a row on the only page, scans the file and gets it. -/
theorem firstRow_scans {ℓ : Ledger} {L : LockTable} (h : FirstRow ℓ)
    (hk : ℓ.world.tasks ⟨1⟩ = some { call := Call.ofRequest ⟨1⟩ (.scan wideFile) })
    (hgrant : ℓ.world.pool.locks.attempt (widePage 0) ⟨1⟩ .shared = (L, .granted))
    (hreach : Reachable widePool ℓ) :
    (∃ rows, Scans widePool ℓ ⟨1⟩ wideFile (List.replicate 3 (.advance ⟨1⟩)) rows ∧
      ⟨some (wideRecord 0), (wideRow 0xaa).data⟩ ∈ rows) ∧
    (ℓ.run (List.replicate 3 (.advance ⟨1⟩))).rows = ℓ.rows ∧
    FirstRow ((ℓ.run (List.replicate 3 (.advance ⟨1⟩))).act (.advance ⟨1⟩)) ∧
    ((ℓ.run (List.replicate 3 (.advance ⟨1⟩))).act (.advance ⟨1⟩)).world.tasks =
      Function.update ℓ.world.tasks ⟨1⟩ none ∧
    ((ℓ.run (List.replicate 3 (.advance ⟨1⟩))).act (.advance ⟨1⟩)).world.pool.locks = L := by
  have hnum : wideFile.numPages ℓ.world.pool.storage.disk = .ok 1 := by
    rw [h.storage, wideTables_numPages]
  have hcached : (ℓ.world.pool.withLocks L).resident[widePage 0]? = some ⟨0⟩ := by
    simp [Pool.withLocks, h.resident]
  obtain ⟨⟨k, rows, hk', hrows⟩, hpool, htasks, hquiet, hsame⟩ :=
    scan_alone hk hnum hgrant (Pool.fetch_of_resident hcached)
  have hscan : Scans widePool ℓ ⟨1⟩ wideFile (List.replicate 3 (.advance ⟨1⟩)) rows := by
    refine ⟨hreach, ⟨_, hk, rfl⟩, ?_, ?_, ?_, ⟨k, hk', hrows⟩⟩
    · rw [h.storage]
      exact wideTables_catalog
    · exact World.lasts_of_isSome trivial (by rw [← run_world, hk']; rfl)
    · simp [List.replicate_succ]
  refine ⟨⟨rows, hscan, ?_⟩, hquiet, h.congr hsame ⟨_, _, hpool⟩, htasks, by rw [hpool]; rfl⟩
  refine (hscan.mem_iff (hreach.inv create_widePool wideTables_sound) _).2 ⟨_, _, rfl, rfl, ?_, ?_⟩
  · rw [h.storage, wideTables_pages]
    exact Nat.one_pos
  · rw [live, hquiet, h.rows, RowHistory.live_changed_self]

/-- Transaction 1 has inserted a row, and is about to scan the file. -/
def ownScan : Ledger :=
  ((start widePool).run (inserts ⟨1⟩ 0xaa 7)).act (.request ⟨1⟩ (.scan wideFile))

/-- The scan has returned. -/
def ownScanned : Ledger := (ownScan.run (List.replicate 3 (.advance ⟨1⟩))).act (.advance ⟨1⟩)

/-- Transaction 1 has asked for the first page once more, to scan it. -/
def locks₅ : LockTable := (locks₁.attempt (widePage 0) ⟨1⟩ .shared).1

/-- Transaction 2 waits for it, to write to it. -/
def locks₆ : LockTable := (locks₅.attempt (widePage 0) ⟨2⟩ .exclusive).1

/-- Transaction 2 asks for an insert, which goes to sleep, and transaction 1 scans the file again. -/
def vainInsert : List Action := inserts ⟨2⟩ 0xbb 3 ++ [.request ⟨1⟩ (.scan wideFile)]

theorem ownScan_spec : FirstRow ownScan ∧
    ownScan.world.tasks = Function.update (fun _ => none) ⟨1⟩
      (some { call := Call.ofRequest ⟨1⟩ (.scan wideFile) }) ∧
    ownScan.world.pool.locks = locks₁ ∧ Reachable widePool ownScan := by
  obtain ⟨ℓ, hℓ⟩ : ∃ ℓ, (start widePool).run (inserts ⟨1⟩ 0xaa 7) = ℓ := ⟨_, rfl⟩
  obtain ⟨h, hidle, hl⟩ := firstRow_insert hℓ
  have hreach : Reachable widePool ((start widePool).run (inserts ⟨1⟩ 0xaa 7)) :=
    Reachable.start.serve (r := .insert wideFile.table (wideRow 0xaa)) rfl trivial 7
  rw [hℓ] at hreach
  rw [ownScan, hℓ]
  refine ⟨⟨h.rows, h.storage, h.capacity, h.resident, h.size, h.full⟩, ?_, hl, ?_⟩
  · show Function.update ℓ.world.tasks _ _ = _
    rw [hidle]
  · exact hreach.step (congrFun hidle _) trivial

theorem ownScanned_spec : FirstRow ownScanned ∧ (∀ u, ownScanned.world.tasks u = none) ∧
    ownScanned.world.pool.locks = locks₅ ∧ Reachable widePool ownScanned ∧
    ∃ rows, Scans widePool ownScan ⟨1⟩ wideFile (List.replicate 3 (.advance ⟨1⟩)) rows ∧
      ⟨some (wideRecord 0), (wideRow 0xaa).data⟩ ∈ rows := by
  obtain ⟨h, htasks, hlocks, hreach⟩ := ownScan_spec
  obtain ⟨⟨rows, hscan, hrow⟩, -, h', htasks', hlocks'⟩ := firstRow_scans (L := locks₅) h (by rw [htasks]; rfl)
    (by rw [hlocks]; exact Prod.ext rfl (by cbv)) hreach
  unfold ownScanned
  refine ⟨h', fun u => ?_, hlocks', (hreach.run hscan.lasts.proceeds).step trivial trivial, rows, hscan,
    hrow⟩
  rw [htasks', htasks, Function.update_idem]
  by_cases hu : u = ⟨1⟩ <;> simp [hu]

/-- Nothing comes of the insert. -/
theorem firstRow_vainInsert {ℓ : Ledger} (h : FirstRow ℓ) (hidle : ∀ u, ℓ.world.tasks u = none)
    (hlocks : ℓ.world.pool.locks = locks₅) :
    ℓ.world.Proceeds ⟨1⟩ vainInsert ∧ FirstRow (ℓ.run vainInsert) ∧
    (ℓ.run vainInsert).rows = ℓ.rows ∧
    (ℓ.run vainInsert).world.tasks ⟨1⟩ = some { call := Call.ofRequest ⟨1⟩ (.scan wideFile) } ∧
    (ℓ.run vainInsert).world.pool.locks = locks₆ := by
  have hsleeps : ℓ.world.pool.locks.attempt (widePage 0) ⟨2⟩ .exclusive = (locks₆, .sleeps 0) := by
    rw [hlocks]
    exact Prod.ext rfl (by cbv)
  obtain ⟨hpool, htasks, hrows⟩ := insert_sleeps (y := wideRow 0xbb)
    (by rw [h.storage]; exact wideTables_catalog) (by simp [wideRow, wideFile])
    (by rw [h.storage]; exact wideTables_numPages) Nat.one_pos hsleeps
  have hserved := World.proceeds_serve (t := ⟨1⟩) (hidle ⟨2⟩) (r := .insert wideFile.table (wideRow 0xbb))
    trivial (by simp) 3
  rw [vainInsert, World.proceeds_append, run_append, ← run_world, inserts]
  generalize ℓ.run (.request ⟨2⟩ (.insert wideFile.table (wideRow 0xbb)) ::
    List.replicate 3 (.advance ⟨2⟩)) = ℓ' at *
  refine ⟨⟨hserved, ?_, trivial, by simp, trivial⟩, ?_, hrows, ?_, ?_⟩
  · show ℓ'.world.tasks ⟨1⟩ = none
    rw [htasks]
    exact hidle ⟨1⟩
  · exact h.congr hrows ⟨_, _, hpool⟩
  · simp [run, act, World.act, World.setTask]
  · show ℓ'.world.pool.locks = _
    rw [hpool]
    rfl

theorem scans_twice : ∃ rows later,
    Scans widePool ownScan ⟨1⟩ wideFile (List.replicate 3 (.advance ⟨1⟩)) rows ∧
    ⟨some (wideRecord 0), (wideRow 0xaa).data⟩ ∈ rows ∧
    ownScanned.world.Proceeds ⟨1⟩ vainInsert ∧
    Scans widePool (ownScanned.run vainInsert) ⟨1⟩ wideFile (List.replicate 3 (.advance ⟨1⟩)) later ∧
    ((ownScanned.run vainInsert).run (List.replicate 3 (.advance ⟨1⟩))).rows = ownScanned.rows := by
  obtain ⟨hfirst, hidle, hheld, hreach, rows, hscan, hrow⟩ := ownScanned_spec
  obtain ⟨hproceeds, h, hrows, hk, hlocks⟩ := firstRow_vainInsert hfirst hidle hheld
  obtain ⟨⟨later, hlater, -⟩, hquiet, -⟩ := firstRow_scans
    (L := (locks₆.attempt (widePage 0) ⟨1⟩ .shared).1) h hk (by rw [hlocks]; exact Prod.ext rfl (by cbv))
    (hreach.run hproceeds)
  exact ⟨rows, later, hscan, hrow, hproceeds, hlater, hquiet.trans hrows⟩

/-! ## No phantoms -/

/-- **The first page guards its table against phantoms.** A transaction that holds it scans the table, and no
insert of another one is on its way. Until the transaction asks for its end, the number of pages changes only in
its own inserts, and a later scan returns the same rows in the same order, but for the rows that the transaction
itself has put there or taken away since the first one (`news`). -/
theorem scans_without_phantoms {capacity : Nat} {draws : Draws} {P : Pool Tables} {x : HeapFile}
    {rows : List Tuple} (hP : Pool.create capacity draws d = .ok P) (hd : d.Sound)
    (h : Scans P ℓ t x as rows) (hpages : 0 < ℓ.world.pool.storage.pages x.table)
    (hheld : (ℓ.world.pool.locks.modeOf ⟨x.table, 0⟩ t).isSome)
    (halone : ∀ u table y, u ≠ t → (ℓ.world.tasks u).isSome → ℓ.asked u ≠ some (.insert table y)) :
    (∀ bs a, ℓ.world.Proceeds t (bs ++ [a]) →
      (ℓ.run (bs ++ [a])).world.pool.storage.pages x.table = (ℓ.run bs).world.pool.storage.pages x.table ∨
      a = .advance t ∧ ∃ k i table y, (ℓ.run bs).world.tasks t = some k ∧
        (ℓ.run bs).asked t = some (.insert table y) ∧ k.call.activity = .growing i ∧ i.heap.table = x.table) ∧
    ∀ bs cs later, ((ℓ.run as).act (.advance t)).world.Proceeds t bs →
      Scans P (((ℓ.run as).act (.advance t)).run bs) t x cs later →
      ∃ news, ((((ℓ.run as).act (.advance t)).run bs).run cs).rows = news ++ ((ℓ.run as).act (.advance t)).rows ∧
        later.filter (RowHistory.leaves t news) = rows.filter (RowHistory.leaves t news) ∧
        ∀ r row, r.page.table = x.table → RowHistory.own t r news = some row →
          ∀ b, ⟨some r, b⟩ ∈ later ↔ row = some b := by
  have hℓ := h.reachable.inv hP hd
  have hguarded := h.guarded hℓ hpages hheld halone
  constructor
  · intro bs a hproceeds
    obtain ⟨hbs, ha, hkind, -⟩ := World.proceeds_append.1 hproceeds
    rw [run_append]
    rw [← run_world] at ha
    exact (hℓ.run_proceeds hbs).pages_act (hℓ.guarded_run hguarded hbs) ha hkind
  intro bs cs later hbs hlater
  have hreturns := h.live_eq d
  have hall := h.guarded_after hℓ hguarded
  have hℓ₁ := (hℓ.run h.lasts).act (a := .advance t) trivial trivial
  generalize (ℓ.run as).act (.advance t) = ℓ₁ at *
  have hℓ₂ := hℓ₁.run_proceeds hbs
  have hall₂ := hℓ₁.guarded_run hall hbs
  have hproceeds : ℓ₁.world.Proceeds t (bs ++ cs) :=
    World.proceeds_append.2 ⟨hbs, by rw [← run_world]; exact hlater.lasts.proceeds⟩
  obtain ⟨news, hnews, hlive⟩ := hℓ₁.live_run hall hproceeds
  rw [run_append] at hnews hlive
  refine ⟨news, hnews, ?_, fun r row hr hown b => ?_⟩
  · rw [h.eq_listing hℓ, hlater.eq_listing hℓ₂]
    refine HeapFile.filter_listing_eq hall₂.pages (fun r hr hleft => ?_) fun r hr hpast => ?_
    · rw [hlive r hr, Option.isNone_iff_eq_none.1 hleft, Option.getD_none, hreturns]
    · cases hrow : (ℓ.run as).live d t r with
      | none => rfl
      | some row => exact absurd (h.pageNo_lt hℓ hguarded hr hrow) (Nat.not_lt.2 hpast)
  · rw [hlater.mem_iff_live hℓ₂ hall₂ hr, hlive r hr, hown, Option.getD_some]

/-- Transaction 2 asks for an insert in vain: transaction 1, which holds the page that it has put a row on, sees
the same rows again. -/
theorem scans_without_phantoms_in_vain : ∃ rows,
    (ownScan.world.pool.locks.modeOf (widePage 0) ⟨1⟩).isSome ∧
    Scans widePool ownScan ⟨1⟩ wideFile (List.replicate 3 (.advance ⟨1⟩)) rows ∧
    ⟨some (wideRecord 0), (wideRow 0xaa).data⟩ ∈ rows ∧
    Scans widePool (ownScanned.run vainInsert) ⟨1⟩ wideFile (List.replicate 3 (.advance ⟨1⟩)) rows := by
  obtain ⟨rows, later, hscan, hrow, hproceeds, hlater, hrows⟩ := scans_twice
  obtain ⟨h, htasks, hlocks, -⟩ := ownScan_spec
  have hheld : (ownScan.world.pool.locks.modeOf (widePage 0) ⟨1⟩).isSome := by
    rw [hlocks]
    cbv
  obtain ⟨-, hsame⟩ := scans_without_phantoms create_widePool wideTables_sound hscan
    (by rw [h.storage, wideTables_pages]; exact Nat.one_pos) hheld
    fun u table y hu hsome => by simp [htasks, hu] at hsome
  obtain ⟨news, hnews, hfilter, -⟩ := hsame vainInsert _ later hproceeds hlater
  obtain rfl : news = [] := List.append_left_eq_self.1 (hnews.symm.trans hrows)
  have hall : ∀ ys : List Tuple, ys.filter (RowHistory.leaves ⟨1⟩ []) = ys := fun ys =>
    List.filter_eq_self.2 fun y _ => by cases hy : y.recordId <;> simp [RowHistory.leaves, RowHistory.own, hy]
  rw [hall, hall] at hfilter
  exact ⟨rows, hheld, hscan, hrow, hfilter ▸ hlater⟩

end Ledger

end PageEngine
