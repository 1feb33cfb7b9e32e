import PageEngine.Proofs.Heap.Slots
import PageEngine.Proofs.World.Runs

/-!
# `Proofs/World/Rows.lean` — the rows behind the pages

Clients insert and delete rows, and the pool keeps pages. A `RowHistory` tells what happened to the rows,
in terms of what clients ask for: which row was put under which record id or taken away, and by whom, and
who has committed. From it alone one can tell which rows are live for a transaction:

> **the rows of all committed transactions, with its own inserts and without its own deletes.**

`RowsAgree` says that the pages of a pool hold these rows. Each way in which the pages change keeps it,
provided that the row history goes on accordingly.
-/

set_option autoImplicit false

namespace PageEngine

open Std

/-! ## Row histories -/

/-- What a step of a run did to the rows. -/
inductive RowEvent where
  /-- A transaction has put a row under a record id, or has taken away what was there. -/
  | changed (t : TxnId) (r : RecordId) (row : Option Bytes)
  /-- A transaction has committed or aborted. -/
  | ended (t : TxnId) (commit : Bool)
  /-- A file with these rows was registered for a table. -/
  | registered (table : TableId) (rows : RecordId → Option Bytes)

/-- The row events of a run, the latest first. -/
abbrev RowHistory := List RowEvent

namespace RowHistory

variable {origin : RecordId → Option Bytes} {t u : TxnId} {r : RecordId} {L : RowHistory}

/-- The latest change of a row by a transaction since it began. -/
def own (t : TxnId) (r : RecordId) : RowHistory → Option (Option Bytes)
  | [] => none
  | .changed u q row :: L => if u = t ∧ q = r then some row else own t r L
  | .ended u _ :: L => if u = t then none else own t r L
  | .registered .. :: L => own t r L

/-- The row that the committed transactions have left, where there was `origin r` in the beginning. -/
def committed (origin : RecordId → Option Bytes) (r : RecordId) : RowHistory → Option Bytes
  | [] => origin r
  | .ended t true :: L => (own t r L).getD (committed origin r L)
  | .ended _ false :: L => committed origin r L
  | .registered table rows :: L => if table = r.page.table then rows r else committed origin r L
  | .changed .. :: L => committed origin r L

/-- The row that is live for a transaction. -/
def live (origin : RecordId → Option Bytes) (t : TxnId) (r : RecordId) (L : RowHistory) :
    Option Bytes :=
  (own t r L).getD (committed origin r L)

@[simp] theorem own_ended_self (c : Bool) : own t r (.ended t c :: L) = none := if_pos rfl

theorem own_ended_other (c : Bool) (hu : u ≠ t) : own u r (.ended t c :: L) = own u r L :=
  if_neg (Ne.symm hu)

/-- A change of another row, or by another transaction, is not noticed. -/
theorem live_changed_other {q : RecordId} {row : Option Bytes} (hne : ¬(t = u ∧ q = r)) :
    live origin u r (.changed t q row :: L) = live origin u r L := by
  simp only [live, own, committed, if_neg hne]

@[simp] theorem live_changed_self {row : Option Bytes} :
    live origin t r (.changed t r row :: L) = row := by
  simp [live, own]

end RowHistory

/-! ## Stored rows -/

namespace Tables

variable {d d' : Tables} {r : RecordId} {x : HeapFile}

/-- The row that the store of its table holds under a record id. -/
def rowAt (d : Tables) (r : RecordId) : Option Bytes :=
  match d.catalog[r.page.table]? with
  | some (.heap x) =>
    if r.page.pageNo < d.pages r.page.table then x.layout.rowAt (d.contents r.page) r.slot else none
  | _ => none

theorem rowAt_of_heap (hcat : d.catalog[r.page.table]? = some (.heap x))
    (hlt : r.page.pageNo < d.pages r.page.table) :
    d.rowAt r = x.layout.rowAt (d.contents r.page) r.slot := by
  simp only [rowAt, hcat, if_pos hlt]

theorem rowAt_of_le (hle : d.pages r.page.table ≤ r.page.pageNo) : d.rowAt r = none := by
  unfold rowAt
  split
  · exact if_neg (Nat.not_lt.2 hle)
  · rfl

theorem rowAt_congr (hcat : d'.catalog[r.page.table]? = d.catalog[r.page.table]?)
    (hpages : d'.pages r.page.table = d.pages r.page.table)
    (hcontents : d'.contents r.page = d.contents r.page) : d'.rowAt r = d.rowAt r := by
  simp only [rowAt, hcat, hpages, hcontents]

end Tables

/-! ## Rows and pages -/

/-- The pages hold the rows of which the row history tells: the stores the committed ones, and a change
of a page by a transaction the ones that are live for it. -/
structure RowsAgree (origin : RecordId → Option Bytes) (d : Tables) (h : History) (L : RowHistory) :
    Prop where
  stored : ∀ r, d.rowAt r = RowHistory.committed origin r L
  changed : ∀ t p y x, History.own t p h = some y → d.catalog[p.table]? = some (.heap x) →
    ∀ s, x.layout.rowAt y s = RowHistory.live origin t ⟨p, s⟩ L
  unchanged : ∀ t p, History.own t p h = none → ∀ s, RowHistory.own t ⟨p, s⟩ L = none

section Rows

variable {origin : RecordId → Option Bytes} {porigin : PageId → PageData} {ch : FrameId → Prop}
  {P : Pool Tables} {d d' : Tables} {h h' : History} {L : RowHistory} {t : TxnId} {p : PageId}
  {x : HeapFile}

theorem RowsAgree.live_of_unchanged (ha : RowsAgree origin d h L) (hown : History.own t p h = none)
    (s : Nat) : RowHistory.live origin t ⟨p, s⟩ L = d.rowAt ⟨p, s⟩ := by
  rw [RowHistory.live, ha.unchanged t p hown s, ha.stored]
  rfl

/-- **What a transaction sees in a page are the rows of the page that are live for it.** -/
theorem RowsAgree.rowAt_shown (ha : RowsAgree origin P.storage h L)
    (hcat : P.storage.catalog[p.table]? = some (.heap x))
    (hlt : p.pageNo < P.storage.pages p.table) (t : TxnId) (s : Nat) :
    x.layout.rowAt (shown P h t p) s = RowHistory.live origin t ⟨p, s⟩ L := by
  cases hown : History.own t p h with
  | none =>
    rw [ha.live_of_unchanged hown, shown, hown, Tables.rowAt_of_heap (r := ⟨p, s⟩) hcat hlt]
    rfl
  | some y =>
    rw [shown, hown]
    exact ha.changed t p y x hown hcat s

/-- **There is no live row where there is no page.** -/
theorem RowsAgree.live_of_le (ha : RowsAgree origin P.storage h L) (hi : PoolInv porigin ch P h)
    {r : RecordId} (hle : P.storage.pages r.page.table ≤ r.page.pageNo) :
    RowHistory.live origin t r L = none := by
  cases hown : History.own t r.page h with
  | none =>
    rw [ha.live_of_unchanged hown]
    exact Tables.rowAt_of_le hle
  | some y =>
    have hlt := (hi.hasPage_of_own hown).1
    omega

/-! ## How the pages change -/

/-- **Pages without rows can be added**, and rows are not changed where pages are not. -/
theorem RowsAgree.of_grown (ha : RowsAgree origin d h L) (hcat : d'.catalog = d.catalog)
    (hle : ∀ s, d.pages s ≤ d'.pages s)
    (hold : ∀ p, p.pageNo < d.pages p.table → d'.contents p = d.contents p)
    (hnew : ∀ p, d.pages p.table ≤ p.pageNo → p.pageNo < d'.pages p.table →
      d'.contents p = PageData.zeros)
    (hown : ∀ t p, History.own t p h' = History.own t p h) : RowsAgree origin d' h' L where
  stored r := by
    rw [← ha.stored]
    by_cases hlt : r.page.pageNo < d.pages r.page.table
    · have hlt' := Nat.lt_of_lt_of_le hlt (hle r.page.table)
      simp only [Tables.rowAt, hcat, if_pos hlt, if_pos hlt', hold r.page hlt]
    · rw [Tables.rowAt_of_le (d := d) (Nat.not_lt.1 hlt), Tables.rowAt, hcat]
      split
      · split
        · rename_i hlt'
          rw [hnew r.page (Nat.not_lt.1 hlt) hlt', SlotLayout.rowAt_zeros]
        · rfl
      · rfl
  changed t p y x hy hx := by
    rw [hown] at hy
    rw [hcat] at hx
    exact ha.changed t p y x hy hx
  unchanged t p hy := ha.unchanged t p ((hown t p).symm.trans hy)

/-- **A commit commits the rows that were live for its transaction.** -/
theorem RowsAgree.commit (ha : RowsAgree origin P.storage h L) (hi : PoolInv porigin ch P h)
    (hcat : d'.catalog = P.storage.catalog) (hpages : ∀ s, d'.pages s = P.storage.pages s)
    (hcontents : ∀ p, d'.contents p = shown P h t p) :
    RowsAgree origin d' (.ended t true :: h) (.ended t true :: L) where
  stored r := by
    show d'.rowAt r = RowHistory.live origin t r L
    by_cases hlt : r.page.pageNo < P.storage.pages r.page.table
    · obtain ⟨x, hx, -⟩ := hi.sound.heap_of_lt hlt
      rw [Tables.rowAt_of_heap (hcat ▸ hx) (by rw [hpages]; exact hlt), hcontents]
      exact ha.rowAt_shown hx hlt t r.slot
    · have hle := Nat.not_lt.1 hlt
      rw [ha.live_of_le hi hle, Tables.rowAt_of_le (by rw [hpages]; exact hle)]
  changed u p y x hy hx s := by
    have hu : u ≠ t := by
      rintro rfl
      simp [History.own] at hy
    have hy : History.own u p h = some y := (if_neg (Ne.symm hu)).symm.trans hy
    rw [hcat] at hx
    have hnone := ha.unchanged t p (hi.own_none_of_held (by rw [hi.exclusive_of_own hy]; rfl) hu.symm) s
    rw [ha.changed u p y x hy hx s, RowHistory.live, RowHistory.live,
      RowHistory.own_ended_other true hu, RowHistory.committed, hnone]
    rfl
  unchanged u p hy s := by
    by_cases hu : u = t
    · rw [hu, RowHistory.own_ended_self]
    · rw [RowHistory.own_ended_other true hu]
      exact ha.unchanged u p ((if_neg (Ne.symm hu)).symm.trans hy) s

/-- **An abort leaves the committed rows as they are.** -/
theorem RowsAgree.abort (ha : RowsAgree origin d h L) (hcat : d'.catalog = d.catalog)
    (hpages : ∀ s, d'.pages s = d.pages s) (hcontents : ∀ p, d'.contents p = d.contents p) (t : TxnId) :
    RowsAgree origin d' (.ended t false :: h) (.ended t false :: L) where
  stored r := by
    rw [Tables.rowAt_congr (by rw [hcat]) (hpages _) (hcontents _)]
    exact ha.stored r
  changed u p y x hy hx s := by
    have hu : u ≠ t := by
      rintro rfl
      simp [History.own] at hy
    rw [hcat] at hx
    rw [ha.changed u p y x ((if_neg (Ne.symm hu)).symm.trans hy) hx s, RowHistory.live,
      RowHistory.live, RowHistory.own_ended_other false hu]
    rfl
  unchanged u p hy s := by
    by_cases hu : u = t
    · rw [hu, RowHistory.own_ended_self]
    · rw [RowHistory.own_ended_other false hu]
      exact ha.unchanged u p ((if_neg (Ne.symm hu)).symm.trans hy) s

/-- **A change of a page that changes one of its rows changes what is live for its transaction, in this
row.** -/
theorem RowsAgree.store (ha : RowsAgree origin P.storage h L) (hcat : d'.catalog = P.storage.catalog)
    (hpages : ∀ s, d'.pages s = P.storage.pages s)
    (hcontents : ∀ p, d'.contents p = P.storage.contents p)
    (hx : P.storage.catalog[p.table]? = some (.heap x)) (hlt : p.pageNo < P.storage.pages p.table)
    {y : PageData} {slot : Nat} {row : Option Bytes}
    (hrows : ∀ s, x.layout.rowAt y s =
      if s = slot then row else x.layout.rowAt (shown P h t p) s) :
    RowsAgree origin d' (.stored t p y :: h) (.changed t ⟨p, slot⟩ row :: L) where
  stored r := by
    rw [Tables.rowAt_congr (by rw [hcat]) (hpages _) (hcontents _)]
    exact ha.stored r
  changed u q z w hz hw s := by
    rw [hcat] at hw
    by_cases hq : t = u ∧ p = q
    · obtain ⟨rfl, rfl⟩ := hq
      obtain rfl : y = z := by simpa [History.own] using hz
      obtain rfl : x = w := by simpa [hx] using hw
      rw [hrows]
      by_cases hs : s = slot
      · subst hs
        rw [if_pos rfl, RowHistory.live_changed_self]
      · rw [if_neg hs, ha.rowAt_shown hx hlt]
        exact (RowHistory.live_changed_other (by simp [Ne.symm hs])).symm
    · have hne : ¬(t = u ∧ (⟨p, slot⟩ : RecordId) = ⟨q, s⟩) := fun h => hq ⟨h.1, (by
        simpa using congrArg RecordId.page h.2)⟩
      rw [RowHistory.live_changed_other hne]
      exact ha.changed u q z w ((if_neg hq).symm.trans hz) hw s
  unchanged u q hz s := by
    have hq : ¬(t = u ∧ p = q) := by
      rintro ⟨rfl, rfl⟩
      simp [History.own] at hz
    have hne : ¬(t = u ∧ (⟨p, slot⟩ : RecordId) = ⟨q, s⟩) := fun h => hq ⟨h.1, (by
      simpa using congrArg RecordId.page h.2)⟩
    rw [RowHistory.own, if_neg hne]
    exact ha.unchanged u q ((if_neg hq).symm.trans hz) s

/-- **A registered file brings the rows that it holds.** -/
theorem RowsAgree.register (ha : RowsAgree origin P.storage h L) (hi : PoolInv porigin ch P h)
    {file : HeapFile} (hf : P.storage.Fresh file) (bytes : Bytes) :
    RowsAgree origin (P.storage.register (.heap file)) (.registered file.table bytes :: h)
      (.registered file.table (P.storage.register (.heap file)).rowAt :: L) := by
  have hcommitted : ∀ r : RecordId, r.page.table ≠ file.table →
      RowHistory.committed origin r
        (.registered file.table (P.storage.register (.heap file)).rowAt :: L) =
      RowHistory.committed origin r L := fun r hr => if_neg (Ne.symm hr)
  refine ⟨fun r => ?_, fun u p y x hy hx s => ?_, fun u p hy s => ha.unchanged u p hy s⟩
  · by_cases hr : r.page.table = file.table
    · exact (if_pos hr.symm).symm
    · rw [hcommitted r hr, ← ha.stored]
      exact Tables.rowAt_congr (by rw [Tables.catalog_register, if_neg hr]) (Tables.pages_register hr)
        (Tables.contents_register hr)
  · -- A changed page belongs to a table that has a store already.
    have hne : p.table ≠ file.table :=
      hf.table_ne hi.sound (Nat.lt_of_le_of_lt (Nat.zero_le _) (hi.hasPage_of_own hy).1)
    rw [Tables.catalog_register, if_neg hne] at hx
    rw [ha.changed u p y x hy hx s, RowHistory.live, RowHistory.live, hcommitted ⟨p, s⟩ hne]
    rfl

end Rows

end PageEngine
