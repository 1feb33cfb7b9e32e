import PageEngine.Proofs.World.Inserts
import PageEngine.Proofs.World.Snapshot
import PageEngine.Proofs.World.Transfers

/-!
# `Proofs/World/Receipts.lean` — what clients are told comes true

`Receipts` are a ledger and, beside it, a second row history: what the clients have been told of their rows.
What is owed apart, the two are alike for every transaction.

> **what is in the store is what the clients have been told**: no insert is lost, and none is there twice.

The reason for the second is order. A transaction that tells of a change holds the page of the row, so
nobody else has changed it, and an insert is told where its transaction sees no row.
-/

set_option autoImplicit false

namespace PageEngine

open Std

/-! ## Receipts -/

/-- A ledger, and what the clients have been told of it. -/
structure Receipts where
  ledger : Ledger
  told : RowHistory

namespace Receipts

/-- A pool at which nobody is. -/
def start (P : Pool Tables) : Receipts := ⟨Ledger.start P, []⟩

/-- What the clients are told by an action. -/
def newTold (a : Receipts) : Action → List RowEvent
  | .advance t =>
    match a.ledger.world.tasks t with
    | none => []
    | some k => k.tells (a.ledger.asked t) (k.call.step a.ledger.world.pool).2
  | .register h => [.registered h.table (a.ledger.world.pool.storage.register (.heap h)).rowAt]
  | _ => []

def act (a : Receipts) (x : Action) : Receipts := ⟨a.ledger.act x, a.newTold x ++ a.told⟩

def run (a : Receipts) (xs : List Action) : Receipts := xs.foldl act a

/-- The receipts of the runs of a new pool whose clients ask for rows. -/
inductive Reachable (P : Pool Tables) : Receipts → Prop
  | start : Reachable P (Receipts.start P)
  | step {a : Receipts} {x : Action} :
      Reachable P a → x.Enabled a.ledger.world → x.RowWise → Reachable P (a.act x)

/-- What the call of a transaction has done and not told. -/
def owed (a : Receipts) (t : TxnId) : List RowEvent :=
  ((a.ledger.world.tasks t).map (·.owes (a.ledger.asked t))).getD []

/-- What holds between any two sections. -/
structure Inv (d : Tables) (a : Receipts) : Prop where
  ledger : a.ledger.Inv d
  /-- A call that was asked for a change of a row has not returned. -/
  onWay : ∀ t k q, a.ledger.world.tasks t = some k → a.ledger.asked t = some q → q.ChangesRow →
    k.call.activity.OnWay
  alike : ∀ t, RowHistory.Alike d.rowAt t a.ledger.rows (a.owed t ++ a.told)
  /-- Until an insert is told, its transaction has been told of no row in that place. -/
  vacant : ∀ t k q fs r row, a.ledger.world.tasks t = some k → a.ledger.asked t = some q →
    k.call.activity = .installing fs → q.rowChange k.call.tuple = some (r, some row) →
    RowHistory.live d.rowAt t r a.told = none
  orderly : RowHistory.Orderly d.rowAt a.told

section Inv

variable {d : Tables} {a : Receipts} {t u : TxnId} {k : Task} {q : Request} {r : RecordId}
  {row : Option Bytes}

/-! ## What is owed -/

theorem owed_of_idle (hk : a.ledger.world.tasks t = none) : a.owed t = [] := by
  rw [owed, hk]
  rfl

theorem owed_of_task (hk : a.ledger.world.tasks t = some k) (hq : a.ledger.asked t = some q) :
    a.owed t = k.owes (some q) := by
  rw [owed, hk, hq]
  rfl

theorem Inv.owed_cases (ha : a.Inv d) (t : TxnId) :
    a.owed t = [] ∨ ∃ r row, a.owed t = [.changed t r row] := by
  cases hk : a.ledger.world.tasks t with
  | none => exact .inl (owed_of_idle hk)
  | some k =>
    obtain ⟨q, hq, -⟩ := ha.ledger.tasks t k hk
    rw [owed_of_task hk hq, Task.owes]
    split
    · rw [Request.changes, (ha.ledger.world.tasks t k hk).txn]
      cases hrow : q.rowChange k.call.tuple with
      | none => exact .inl (by simp [hrow])
      | some x => exact .inr ⟨x.1, x.2, by simp [hrow]⟩
    · exact .inl rfl

/-- What is owed is not committed. -/
theorem Inv.committed_owed (ha : a.Inv d) (t : TxnId) (L : RowHistory) :
    RowHistory.committed d.rowAt r (a.owed t ++ L) = RowHistory.committed d.rowAt r L := by
  rcases ha.owed_cases t with ho | ⟨q, row, ho⟩
  · rw [ho]
    rfl
  · rw [ho]
    rfl

/-- Clients are told of changes that have been made. -/
theorem Inv.own_told_none (ha : a.Inv d) (hown : RowHistory.own t r a.ledger.rows = none) :
    RowHistory.own t r a.told = none := by
  rw [(ha.alike t).own] at hown
  rcases ha.owed_cases t with ho | ⟨q, row, ho⟩
  · rw [ho] at hown
    exact hown
  · rw [ho, List.singleton_append, RowHistory.own] at hown
    split at hown
    · cases hown
    · exact hown

/-! ## Who can change a row -/

/-- A row that a transaction has changed is on a page that it holds exclusively. -/
theorem Inv.exclusive_of_own (ha : a.Inv d) (hown : RowHistory.own t r a.ledger.rows ≠ none) :
    a.ledger.world.pool.locks.modeOf r.page t = some .exclusive ∧
      a.ledger.world.pool.storage.HasPage r.page := by
  cases hpage : History.own t r.page a.ledger.world.history with
  | none => exact absurd (ha.ledger.rows.unchanged t r.page hpage r.slot) hown
  | some y =>
    exact ⟨ha.ledger.world.pool.exclusive_of_own hpage, ha.ledger.world.pool.hasPage_of_own hpage⟩

/-- Nobody else has changed a row of a page that a transaction holds. -/
theorem Inv.own_none_of_held (ha : a.Inv d)
    (hheld : (a.ledger.world.pool.locks.modeOf r.page t).isSome) (hu : u ≠ t) :
    RowHistory.own u r a.ledger.rows = none :=
  ha.ledger.rows.unchanged u r.page (ha.ledger.world.pool.own_none_of_held hheld hu) r.slot

/-- A call that installs a frame, or has just done so, holds the page of its row. -/
theorem Inv.exclusive_of_installing (ha : a.Inv d) (hk : a.ledger.world.tasks t = some k)
    (hq : a.ledger.asked t = some q) {fs : List FrameId} (hact : k.call.activity = .installing fs)
    (hrow : q.rowChange k.call.tuple = some (r, row)) :
    a.ledger.world.pool.locks.modeOf r.page t = some .exclusive ∧
      a.ledger.world.pool.storage.HasPage r.page := by
  have htask := ha.ledger.world.tasks t k hk
  have hinv := htask.activity
  rw [hact] at hinv
  rcases hinv.installing_cases with rfl | ⟨f, y, rfl, -, hd⟩
  · refine ha.exclusive_of_own ?_
    have howed : a.owed t = [.changed t r row] := by
      simp [owed_of_task hk hq, Task.owes, hact, Request.changes, hrow, htask.txn]
    rw [(ha.alike t).own, howed, List.singleton_append, RowHistory.own, if_pos ⟨rfl, rfl⟩]
    simp
  · obtain ⟨q', hq', hr⟩ := ha.ledger.tasks t k hk
    obtain rfl : q = q' := Option.some.inj (hq.symm.trans hq')
    have hredone := hr.activity
    rw [hact] at hredone
    obtain ⟨z, -, x, slot, row', -, hchange, -⟩ := hredone
    rw [hrow, Option.some.injEq, Prod.mk.injEq] at hchange
    rw [hchange.1]
    exact ⟨hd.writable.exclusive, hd.image.hasPage⟩

/-! ## Every action -/

theorem inv_start {capacity : Nat} {draws : Draws} {P : Pool Tables}
    (hP : Pool.create capacity draws d = .ok P) (hd : d.Sound) : (start P).Inv d where
  ledger := Ledger.inv_start hP hd
  onWay t k q hk := by cases hk
  alike t := ⟨fun _ => rfl, fun _ => rfl⟩
  vacant t k q fs r row hk := by cases hk
  orderly := trivial

theorem Inv.request (ha : a.Inv d) (hidle : a.ledger.world.tasks t = none) {q : Request}
    (hq : (Action.request t q).ThroughPool) : (a.act (.request t q)).Inv d := by
  have hact : (Call.ofRequest t q).activity = .start q := (World.installs_ofRequest hq).2.2
  have hself : ∀ k, (a.act (.request t q)).ledger.world.tasks t = some k →
      k.call.activity = .start q := by
    intro k hk
    obtain rfl : { call := Call.ofRequest t q } = k := by
      simpa [act, Ledger.act, World.act, World.setTask] using hk
    exact hact
  have htasks : ∀ u, u ≠ t → (a.act (.request t q)).ledger.world.tasks u = a.ledger.world.tasks u := by
    intro u hu
    simp [act, Ledger.act, World.act, World.setTask, hu]
  have hasked : ∀ u, u ≠ t → (a.act (.request t q)).ledger.asked u = a.ledger.asked u := by
    intro u hu
    simp [act, Ledger.act, Ledger.nextAsked, hu]
  have howed : ∀ u, (a.act (.request t q)).owed u = a.owed u := by
    intro u
    by_cases hu : u = t
    · subst hu
      rw [owed_of_idle hidle, owed]
      cases hk : (a.act (.request u q)).ledger.world.tasks u with
      | none => rfl
      | some k => exact Task.owes_eq_nil (by simp [hself k hk])
    · rw [owed, owed, htasks u hu, hasked u hu]
  refine ⟨ha.ledger.request hidle hq, ?_, ?_, ?_, ha.orderly⟩
  · intro u k q' hk hq' hrow
    by_cases hu : u = t
    · subst hu
      obtain rfl : q = q' := by simpa [act, Ledger.act, Ledger.nextAsked] using hq'
      rw [hself k hk]
      exact .inl hrow
    · exact ha.onWay u k q' ((htasks u hu).symm.trans hk) ((hasked u hu).symm.trans hq') hrow
  · intro u
    rw [howed]
    exact ha.alike u
  · intro u k q' fs r row hk hq' hinst hrow
    by_cases hu : u = t
    · subst hu
      rw [hself k hk] at hinst
      cases hinst
    · exact ha.vacant u k q' fs r row ((htasks u hu).symm.trans hk) ((hasked u hu).symm.trans hq') hinst
        hrow

/-- A new table is not one of which there are pages. -/
theorem Inv.table_ne (ha : a.Inv d) {file : HeapFile} (hf : a.ledger.world.pool.storage.Fresh file)
    {p : PageId} (hp : a.ledger.world.pool.storage.HasPage p) : p.table ≠ file.table :=
  hf.table_ne ha.ledger.world.pool.sound (Nat.lt_of_le_of_lt (Nat.zero_le _) hp.1)

theorem Inv.register (ha : a.Inv d) {file : HeapFile} (hf : a.ledger.world.pool.storage.Fresh file) :
    (a.act (.register file)).Inv d := by
  refine ⟨ha.ledger.register hf, ha.onWay, fun u => ?_, ?_, ?_, ha.orderly⟩
  · have h := (ha.alike u).register file.table
      (a.ledger.world.pool.storage.register (.heap file)).rowAt
    refine ⟨fun r => (h.own r).trans ?_, fun r => (h.committed r).trans ?_⟩
    · show RowHistory.own u r (a.owed u ++ a.told) =
        RowHistory.own u r (a.owed u ++ .registered file.table _ :: a.told)
      refine RowHistory.own_append_congr (fun r => ?_) _ r
      rfl
    · show RowHistory.committed d.rowAt r (.registered file.table _ :: (a.owed u ++ a.told)) =
        RowHistory.committed d.rowAt r (a.owed u ++ .registered file.table _ :: a.told)
      rw [ha.committed_owed, RowHistory.committed, RowHistory.committed, ha.committed_owed]
  · intro u k q fs r row hk hq hinst hrow
    have hne := ha.table_ne hf (ha.exclusive_of_installing hk hq hinst hrow).2
    have hold := ha.vacant u k q fs r row hk hq hinst hrow
    show RowHistory.live d.rowAt u r (.registered file.table _ :: a.told) = none
    rw [RowHistory.live, RowHistory.committed, if_neg (Ne.symm hne)]
    exact hold
  · intro u r ht
    by_contra hown
    have hrows : RowHistory.own u r a.ledger.rows ≠ none := fun h => hown (ha.own_told_none h)
    exact ha.table_ne hf (ha.exclusive_of_own hrows).2 ht

/-- `a'` is `a` after a section of the call `k` of `t`, which serves `q`. -/
structure Step (a a' : Receipts) (t : TxnId) (k : Task) (q : Request) : Prop where
  task : a.ledger.world.tasks t = some k
  asked : a.ledger.asked t = some q
  asked_eq : a'.ledger.asked = a.ledger.asked
  tasks_eq : a'.ledger.world.tasks = Function.update a.ledger.world.tasks t
    (k.after (k.call.step a.ledger.world.pool).1 (k.call.step a.ledger.world.pool).2)
  told_eq : a'.told = k.tells (some q) (k.call.step a.ledger.world.pool).2 ++ a.told
  rows_eq : a'.ledger.rows = a.ledger.newRows (.advance t) ++ a.ledger.rows
  transfer : Transfer t (a.ledger.newRows (.advance t))
    (k.tells (some q) (k.call.step a.ledger.world.pool).2) (a.owed t) (a'.owed t)

theorem Inv.step (ha : a.Inv d) (hk : a.ledger.world.tasks t = some k)
    (hq : a.ledger.asked t = some q) : Step a (a.act (.advance t)) t k q := by
  obtain ⟨q', hq', hr⟩ := ha.ledger.tasks t k hk
  obtain rfl : q = q' := Option.some.inj (hq.symm.trans hq')
  have htransfer := (ha.ledger.world.tasks t k hk).transfer ha.ledger.world.pool.sound hr
    (ha.onWay t k q hk hq)
  have hworld : (a.act (.advance t)).ledger.world = a.ledger.world.runSection t k :=
    World.advance_of_plain hk hr.plain
  have howed : (a.act (.advance t)).owed t =
      ((k.after (k.call.step a.ledger.world.pool).1 (k.call.step a.ledger.world.pool).2).map
        (·.owes (some q))).getD [] := by
    have hasked : (a.act (.advance t)).ledger.asked t = some q := hq
    rw [owed, hworld, hasked]
    simp only [World.runSection, Function.update_self]
  refine ⟨hk, hq, rfl, by rw [hworld]; rfl, by simp only [act, newTold, hk, hq], rfl, ?_⟩
  simp only [Ledger.newRows, hk, hq]
  rw [owed_of_task hk hq, howed]
  exact htransfer

section Step

variable {a' : Receipts}

theorem Step.owed_other (hs : Step a a' t k q) (hu : u ≠ t) : a'.owed u = a.owed u := by
  rw [owed, owed, hs.asked_eq, hs.tasks_eq, Function.update_of_ne hu]

/-- The task that the section has left. -/
theorem Step.task_self (hs : Step a a' t k q) {k' : Task} (hk' : a'.ledger.world.tasks t = some k') :
    k'.call = (k.call.step a.ledger.world.pool).2 ∧
      ∀ res, (k.call.step a.ledger.world.pool).2.activity ≠ .finished res := by
  rw [hs.tasks_eq, Function.update_self] at hk'
  unfold Task.after at hk'
  split at hk'
  · cases hk'
  · rename_i hres
    obtain rfl := Option.some.inj hk'
    refine ⟨rfl, fun res hfin => hres ?_⟩
    rw [Call.result?_eq_some.2 hfin]
    rfl

theorem Step.task_other (hs : Step a a' t k q) (hu : u ≠ t) :
    a'.ledger.world.tasks u = a.ledger.world.tasks u := by
  rw [hs.tasks_eq, Function.update_of_ne hu]

theorem Inv.alike_self (ha : a.Inv d) (hs : Step a a' t k q) :
    RowHistory.Alike d.rowAt t a'.ledger.rows (a'.owed t ++ a'.told) := by
  rw [hs.rows_eq, hs.told_eq, ← List.append_assoc, hs.transfer.balance, List.append_assoc]
  exact (ha.alike t).append hs.transfer.rows_by

theorem Inv.alike_other (ha : a.Inv d) (hs : Step a a' t k q) (hu : u ≠ t) :
    RowHistory.Alike d.rowAt u a'.ledger.rows (a'.owed u ++ a'.told) := by
  refine ⟨fun r => ?_, fun r => ?_⟩
  · rw [hs.rows_eq, RowHistory.own_append_of_other hs.transfer.rows_by hu, (ha.alike u).own,
      hs.owed_other hu, hs.told_eq]
    refine RowHistory.own_append_congr (fun r => ?_) _ r
    exact (RowHistory.own_append_of_other hs.transfer.told_by hu).symm
  · rw [(ha.alike_self hs).committed, hs.transfer.committed_after, hs.owed_other hu, ha.committed_owed]

/-- A call for a row is still on its way after the section, or gone. -/
theorem Inv.onWay_self (ha : a.Inv d) (hs : Step a a' t k q) {k' : Task}
    (hk' : a'.ledger.world.tasks t = some k') (hrow : q.ChangesRow) : k'.call.activity.OnWay := by
  obtain ⟨hcall, hgoes⟩ := hs.task_self hk'
  have hadv := (ha.ledger.world.tasks t k hs.task).advances ha.ledger.world.pool.sound
    (ha.onWay t k q hs.task hs.asked hrow)
  rw [hcall]
  rcases hadv.onWay with hway | ⟨res, hres⟩
  · exact hway
  · exact absurd hres (hgoes res)

/-- Where a call is about to install a row, its transaction sees none. -/
theorem Inv.vacant_self (ha : a.Inv d) (hs : Step a a' t k q) {k' : Task}
    (hk' : a'.ledger.world.tasks t = some k') {fs : List FrameId}
    (hinst : k'.call.activity = .installing fs) {x : Bytes}
    (hrow : q.rowChange k'.call.tuple = some (r, some x)) :
    RowHistory.live d.rowAt t r a'.told = none := by
  have htask := ha.ledger.world.tasks t k hs.task
  obtain ⟨q', hq', hr⟩ := ha.ledger.tasks t k hs.task
  obtain rfl : q = q' := Option.some.inj (hs.asked.symm.trans hq')
  have hchanges : q.ChangesRow := by
    by_contra hno
    rw [Request.rowChange_eq_none hno] at hrow
    cases hrow
  rw [(hs.task_self hk').1] at hinst hrow
  have hadv := htask.advances ha.ledger.world.pool.sound (ha.onWay t k q hs.task hs.asked hchanges)
  have hunfinished : ∀ y, (k.call.step a.ledger.world.pool).2.result? ≠ some (.ok y) := by
    intro y hy
    rw [Call.result?_eq_some, hinst] at hy
    cases hy
  rw [hinst] at hadv
  rw [hs.told_eq]
  cases hadv with
  | seeks _ hb => exact hb.elim
  | @writes p f use hact =>
    have hlive := ha.ledger.rows.vacant_of_written htask hr hact hinst hrow
    rw [Task.tells_eq_nil (by simp [hact]) hunfinished, List.nil_append]
    rw [(ha.alike t).live, owed_of_task hs.task hs.asked, Task.owes_eq_nil (by simp [hact])] at hlive
    exact hlive
  | @installs f hact =>
    have htuple : (k.call.step a.ledger.world.pool).2.tuple = k.call.tuple := by
      simp only [Call.step, hact]
      split <;> rfl
    rw [Task.tells_eq_nil (by simp [hact]) hunfinished, List.nil_append]
    exact ha.vacant t k q _ r x hs.task hs.asked hact (htuple ▸ hrow)

theorem Inv.vacant_other (ha : a.Inv d) (hs : Step a a' t k q) (hu : u ≠ t) {k' : Task} {q' : Request}
    (hk' : a.ledger.world.tasks u = some k') (hq' : a.ledger.asked u = some q') {fs : List FrameId}
    (hinst : k'.call.activity = .installing fs) {x : Bytes}
    (hrow : q'.rowChange k'.call.tuple = some (r, some x)) :
    RowHistory.live d.rowAt u r a'.told = none := by
  have hheld := (ha.exclusive_of_installing hk' hq' hinst hrow).1
  have hown := ha.own_told_none (ha.own_none_of_held (t := u) (u := t) (by rw [hheld]; rfl) (Ne.symm hu))
  rw [hs.told_eq, hs.transfer.live_eq hu hown]
  exact ha.vacant u k' q' fs r x hk' hq' hinst hrow

/-- **A change is told when nobody else has one of the same row, and an insert where there is no row.** -/
theorem Inv.orderly_step (ha : a.Inv d) (hs : Step a a' t k q) :
    RowHistory.Orderly d.rowAt a'.told := by
  rw [hs.told_eq]
  rcases hs.transfer.told_cases with htold | ⟨c, htold⟩ | ⟨r, row, htold, howed⟩
  · rw [htold]
    exact ha.orderly
  · rw [htold]
    exact ha.orderly
  · have hown : RowHistory.own t r a.ledger.rows ≠ none := by
      rw [(ha.alike t).own, howed, List.singleton_append, RowHistory.own, if_pos ⟨rfl, rfl⟩]
      simp
    rw [htold]
    refine ⟨fun u hu => ha.own_told_none (ha.own_none_of_held (t := t) ?_ hu), fun hrow => ?_, ha.orderly⟩
    · rw [(ha.exclusive_of_own hown).1]
      rfl
    · obtain ⟨x, rfl⟩ := Option.ne_none_iff_exists'.1 hrow
      rw [owed_of_task hs.task hs.asked] at howed
      obtain ⟨hact, hchange⟩ := Task.owes_eq_changed howed
      exact ha.vacant t k q [] r x hs.task hs.asked hact hchange

end Step

/-- **A call tells in time what has become of its row.** -/
theorem Inv.advance (ha : a.Inv d) (t : TxnId) : (a.act (.advance t)).Inv d := by
  cases hk : a.ledger.world.tasks t with
  | none =>
    have hsame : a.act (.advance t) = a := by
      simp only [act, newTold, Ledger.act, Ledger.nextAsked, Ledger.newRows, World.act, World.advance, hk,
        List.nil_append]
    rw [hsame]
    exact ha
  | some k =>
    obtain ⟨q, hq, -⟩ := ha.ledger.tasks t k hk
    have hs := ha.step hk hq
    refine ⟨ha.ledger.advance t, ?_, ?_, ?_, ha.orderly_step hs⟩
    · intro u k' q' hk' hq' hrow
      rw [hs.asked_eq] at hq'
      by_cases hu : u = t
      · subst hu
        obtain rfl := Option.some.inj (hq.symm.trans hq')
        exact ha.onWay_self hs hk' hrow
      · exact ha.onWay u k' q' (hs.task_other hu ▸ hk') hq' hrow
    · intro u
      by_cases hu : u = t
      · subst hu
        exact ha.alike_self hs
      · exact ha.alike_other hs hu
    · intro u k' q' fs r x hk' hq' hinst hrow
      rw [hs.asked_eq] at hq'
      by_cases hu : u = t
      · subst hu
        obtain rfl := Option.some.inj (hq.symm.trans hq')
        exact ha.vacant_self hs hk' hinst hrow
      · exact ha.vacant_other hs hu (hs.task_other hu ▸ hk') hq' hinst hrow

/-- **Every action tells what has been done, and nothing else.** -/
theorem Inv.act (ha : a.Inv d) {x : Action} (hx : x.Enabled a.ledger.world) (hkind : x.RowWise) :
    (a.act x).Inv d := by
  cases x with
  | request t q => exact ha.request hx hkind
  | edit t p rule => exact hkind.elim
  | advance t => exact ha.advance t
  | register file => exact ha.register hx

theorem Reachable.inv {capacity : Nat} {draws : Draws} {P : Pool Tables}
    (hP : Pool.create capacity draws d = .ok P) (hd : d.Sound) (ha : Reachable P a) : a.Inv d := by
  induction ha with
  | start => exact inv_start hP hd
  | step _ hx hkind ih => exact ih.act hx hkind

end Inv

/-! ## What is in the store -/

/-- **An append leaves the bytes of every page alone**, in the store and in the cache. -/
theorem append_keeps {origin : PageId → PageData} {w : World} {t : TxnId} {k : Task} {i : Insertion}
    (hw : w.Inv origin) (hk : w.tasks t = some k) (hact : k.call.activity = .growing i) :
    (w.advance t).pool.frames = w.pool.frames ∧ (w.advance t).pool.resident = w.pool.resident ∧
      ∀ p : PageId, p.pageNo < w.pool.storage.pages p.table →
        (w.advance t).pool.storage.contents p = w.pool.storage.contents p := by
  have hadvance : (w.advance t).pool = (k.call.step w.pool).1 := by
    simp only [World.advance, hk, hact]
    cases k.rule with
    | none => rfl
    | some rule => rfl
  have hreg := (hw.tasks t k hk).activity
  rw [hact] at hreg
  rw [hadvance]
  rcases Tables.append_cases hw.pool.sound hreg rfl i.pages with
    ⟨e, happ⟩ | ⟨-, happ⟩ | ⟨-, -, disk, happ, hrw⟩
  · simp [Call.step, hact, happ]
  · simp [Call.step, hact, happ]
  · simp only [Call.step, hact, happ, true_and]
    intro p hp
    rw [hrw.contents, if_neg]
    rintro rfl
    exact Nat.lt_irrefl _ hp

theorem run_ledger (a : Receipts) (xs : List Action) : (a.run xs).ledger = a.ledger.run xs := by
  induction xs generalizing a with
  | nil => rfl
  | cons x xs ih => exact ih (a.act x)

theorem Reachable.serve {P : Pool Tables} {a : Receipts} {u : TxnId} (ha : Reachable P a)
    (hidle : a.ledger.world.tasks u = none) {q : Request} (hq : (Action.request u q).RowWise) (n : Nat) :
    Reachable P (a.run (.request u q :: List.replicate n (.advance u))) := by
  have hfirst := ha.step (x := .request u q) hidle hq
  show Reachable P ((a.act (.request u q)).run (List.replicate n (.advance u)))
  generalize a.act (.request u q) = b at hfirst
  induction n generalizing b with
  | zero => exact hfirst
  | succ n ih => exact ih _ (hfirst.step (x := .advance u) trivial trivial)

/-- **No insert is lost or duplicated.** At any time, the rows in the store are those that were there in the
beginning and those of the inserts that have returned without an error in a transaction that has committed,
unless such a delete has taken them away since; each holds the bytes that were inserted. Whosever open
changes are looked at as well, no record id has two live inserts, or one beside a row from the beginning.
And a file grows without a change to its pages. -/
theorem inserts_kept {capacity : Nat} {draws : Draws} {d : Tables} {P : Pool Tables} {a : Receipts}
    (hP : Pool.create capacity draws d = .ok P) (hd : d.Sound) (ha : Reachable P a) :
    (∀ r row, a.ledger.world.pool.storage.rowAt r = some row ↔
      RowHistory.Present d.rowAt (fun _ => false) r row a.told) ∧
    (∀ A r row row' after e before after' e' before',
      RowHistory.LiveInsert A r row a.told after e before →
      RowHistory.LiveInsert A r row' a.told after' e' before' →
        after = after' ∧ e = e' ∧ before = before') ∧
    (∀ A r row after e before, RowHistory.LiveInsert A r row a.told after e before →
      d.rowAt r ≠ none → ¬RowHistory.Kept A r a.told) ∧
    (∀ t k i, a.ledger.world.tasks t = some k → k.call.activity = .growing i →
      (a.ledger.world.advance t).pool.frames = a.ledger.world.pool.frames ∧
      (a.ledger.world.advance t).pool.resident = a.ledger.world.pool.resident ∧
      ∀ p : PageId, p.pageNo < a.ledger.world.pool.storage.pages p.table →
        (a.ledger.world.advance t).pool.storage.contents p =
          a.ledger.world.pool.storage.contents p) := by
  have hinv := ha.inv hP hd
  refine ⟨fun r row => ?_, ?_, ?_, ?_⟩
  · -- The store holds what is committed, and what anybody owes is not.
    rw [hinv.ledger.rows.stored, (hinv.alike ⟨0⟩).committed, hinv.committed_owed,
      ← hinv.orderly.view_none]
    exact hinv.orderly.view_iff _
  · intro A r row row' after e before after' e' before' h h'
    exact hinv.orderly.liveInsert_unique h h'
  · intro A r row after e before h horigin hkept
    obtain ⟨x, hx⟩ := Option.ne_none_iff_exists'.1 horigin
    exact hinv.orderly.not_liveInsert hx hkept h
  · intro t k i hk hact
    exact append_keeps hinv.ledger.world hk hact

end Receipts

/-! ## Two inserts into one place -/

namespace Ledger

/-- The insert of transaction 1 is undone, and its page is free again. -/
theorem firstRow_abort {ℓ : Ledger} (hinv : ℓ.Inv wideTables) (h : FirstRow ℓ)
    (hidle : ℓ.world.tasks = fun _ => none) (hlocks : ℓ.world.pool.locks = locks₁) {ℓ' : Ledger}
    (hℓ' : ℓ.run (.request ⟨1⟩ (.complete false) :: List.replicate 3 (.advance ⟨1⟩)) = ℓ') :
    ℓ'.world.tasks = (fun _ => none) ∧ ℓ'.world.pool.storage = wideTables ∧
      ℓ'.world.pool.resident[widePage 0]? = some ⟨0⟩ ∧
      (∀ u, ℓ'.world.pool.locks.modeOf (widePage 0) u = none) ∧ ℓ'.rows = .ended ⟨1⟩ false :: ℓ.rows := by
  obtain ⟨hpool, htasks, hrows⟩ := complete_alone (congrFun hidle ⟨1⟩) false
  rw [hℓ'] at hpool htasks hrows
  obtain ⟨hstorage, hre⟩ := Pool.restoreHeld_spec hinv.world.pool.filed ⟨1⟩
  rw [hpool]
  refine ⟨htasks.trans hidle, hstorage.trans h.storage, ?_, fun u => ?_, hrows⟩
  · show (ℓ.world.pool.restoreHeld ⟨1⟩).resident[widePage 0]? = some ⟨0⟩
    rw [hre.resident, h.resident, ExtTreeMap.getElem?_insert_self]
  · show ((ℓ.world.pool.restoreHeld ⟨1⟩).locks.releaseAll ⟨1⟩).1.modeOf (widePage 0) u = none
    rw [hre.locks, (LockTable.releaseAll_spec hinv.world.pool.locks ⟨1⟩).2, hlocks, locks₁, LockTable.modeOf_attempt]
    split
    · rfl
    · rename_i hu
      rw [if_neg fun hc => hu hc.2.2, LockTable.modeOf_empty]

/-- A row goes to the first page, which is empty and in the cache. -/
theorem insert_cached {ℓ : Ledger} (hinv : ℓ.Inv wideTables) (hidle : ℓ.world.tasks = fun _ => none)
    (hstorage : ℓ.world.pool.storage = wideTables) {f : FrameId}
    (hres : ℓ.world.pool.resident[widePage 0]? = some f)
    (hfree : ∀ u, ℓ.world.pool.locks.modeOf (widePage 0) u = none) (t : TxnId) (b : UInt8) :
    (ℓ.run (inserts t b 7)).world.tasks = ℓ.world.tasks ∧
      (ℓ.run (inserts t b 7)).rows = .changed t (wideRecord 0) (some (wideRow b).data) :: ℓ.rows := by
  have hcached := hinv.world.pool.cached _ f hres
  have hdata : (ℓ.world.pool.page f).data = PageData.zeros := by
    have hsettled : ¬∃ u, ℓ.world.ChangedBy u f := by
      rintro ⟨u, k, hk, -⟩
      cases (congrFun hidle u).symm.trans hk
    rw [hcached.data_of_free hfree hsettled, hstorage, wideTables_contents]
  have hfetch := Pool.fetch_of_resident
    (P := ℓ.world.pool.withLocks (ℓ.world.pool.locks.attempt (widePage 0) t .exclusive).1) hres
  have hslot : wideFile.layout.freeSlot (ℓ.world.pool.page f).data = some 0 := by
    rw [wideFile_freeSlot, hdata, SlotLayout.isUsed_zeros]
    rfl
  obtain ⟨-, htasks, hrows⟩ := insert_alone (y := wideRow b) (congrFun hidle t)
    (by rw [hstorage]; exact wideTables_catalog) (by simp [wideRow, wideFile])
    (by rw [hstorage]; exact wideTables_numPages) Nat.one_pos
    (LockTable.attempt_of_unheld hfree t .exclusive) hfetch hslot
    (Pool.install_of_resident (by
      rw [Pool.id_setPage _ (Page.withData_id _ _)]
      show ℓ.world.pool.resident[(ℓ.world.pool.page f).id]? = some f
      rw [hcached.image.id_eq, hres]) t)
  exact ⟨htasks, hrows⟩

end Ledger

namespace Receipts

/-- Transaction 1 inserts a row and aborts, and transaction 2, whose row goes to the same place, commits. Of the two
inserts only the second one is live. -/
theorem inserts_kept_committed : ∃ a, Reachable Ledger.widePool a ∧ a.ledger.world.Idle ∧
    a.ledger.rows =
      [.ended ⟨2⟩ true, .changed ⟨2⟩ (Ledger.wideRecord 0) (some (Ledger.wideRow 0xbb).data),
        .ended ⟨1⟩ false, .changed ⟨1⟩ (Ledger.wideRecord 0) (some (Ledger.wideRow 0xaa).data)] ∧
    (∃ after e before, RowHistory.LiveInsert (fun _ => false) (Ledger.wideRecord 0)
      (Ledger.wideRow 0xbb).data a.told after e before) ∧
    ∀ after e before, ¬RowHistory.LiveInsert (fun _ => false) (Ledger.wideRecord 0)
      (Ledger.wideRow 0xaa).data a.told after e before := by
  obtain ⟨a, hrun⟩ : ∃ a, (start Ledger.widePool).run (Ledger.inserts ⟨1⟩ 0xaa 7) = a := ⟨_, rfl⟩
  have hreach : Reachable Ledger.widePool a := by
    rw [← hrun]
    exact Reachable.start.serve (q := .insert Ledger.wideFile.table (Ledger.wideRow 0xaa)) rfl trivial 7
  obtain ⟨hfirst, hidle, hlocks⟩ := Ledger.firstRow_insert (ℓ := a.ledger) (by rw [← hrun, run_ledger]; rfl)
  -- The first transaction aborts.
  have haborts := hreach.serve (congrFun hidle ⟨1⟩) (q := .complete false) trivial 3
  obtain ⟨hidle₁, hstorage₁, hres₁, hfree₁, hrows₁⟩ := Ledger.firstRow_abort
    (hreach.inv Ledger.create_widePool Ledger.wideTables_sound).ledger hfirst hidle hlocks (run_ledger _ _).symm
  generalize a.run (.request ⟨1⟩ (.complete false) :: List.replicate 3 (.advance ⟨1⟩)) = a₁ at *
  -- The second one inserts its row, and commits.
  have hinserts := haborts.serve (congrFun hidle₁ ⟨2⟩)
    (q := .insert Ledger.wideFile.table (Ledger.wideRow 0xbb)) trivial 7
  obtain ⟨htasks₂, hrows₂⟩ := Ledger.insert_cached
    (haborts.inv Ledger.create_widePool Ledger.wideTables_sound).ledger hidle₁ hstorage₁ hres₁ hfree₁ ⟨2⟩ 0xbb
  rw [Ledger.inserts, ← run_ledger] at htasks₂ hrows₂
  generalize a₁.run (.request ⟨2⟩ (.insert Ledger.wideFile.table (Ledger.wideRow 0xbb)) ::
    List.replicate 7 (.advance ⟨2⟩)) = a₂ at *
  have hidle₂ : a₂.ledger.world.tasks ⟨2⟩ = none := by rw [htasks₂, hidle₁]
  have hcommits := hinserts.serve hidle₂ (q := .complete true) trivial 3
  obtain ⟨-, htasks₃, hrows₃⟩ := Ledger.complete_alone hidle₂ true
  rw [← run_ledger] at htasks₃ hrows₃
  rw [hrows₂, hrows₁, hfirst.rows] at hrows₃
  generalize a₂.run (.request ⟨2⟩ (.complete true) :: List.replicate 3 (.advance ⟨2⟩)) = a₃ at *
  obtain ⟨hstore, -⟩ := inserts_kept Ledger.create_widePool Ledger.wideTables_sound hcommits
  have hrow := (hcommits.inv Ledger.create_widePool Ledger.wideTables_sound).ledger.rows.stored
    (Ledger.wideRecord 0)
  rw [hrows₃] at hrow
  change _ = some (Ledger.wideRow 0xbb).data at hrow
  refine ⟨a₃, hcommits, fun t => ?_, hrows₃, ?_, fun after e before hlive => ?_⟩
  · rw [htasks₃, htasks₂, hidle₁]
  · rcases (hstore (Ledger.wideRecord 0) (Ledger.wideRow 0xbb).data).1 hrow with hlive | ⟨horigin, -⟩
    · exact hlive
    · rw [Ledger.wideTables_rowAt] at horigin
      cases horigin
  · have hboth := hrow.symm.trans ((hstore _ _).2 (.inl ⟨after, e, before, hlive⟩))
    exact absurd (Option.some.inj hboth) (by simp [Ledger.wideRow])

end Receipts

end PageEngine
