import PageEngine.Proofs.World.Advances
import PageEngine.Proofs.World.Ledger

/-!
# `Proofs/World/Transfers.lean` — what a section does and what it tells

The ledger of a pool says what has happened to the rows of its pages. A client learns of it when its call
returns: an insert or a delete has happened for it if there was no error. What a call has done and not told
yet is what it **owes**.

> **a section tells what it does, except for a change of a row**, which the section that installs the page
> makes and the one that returns tells.
-/

set_option autoImplicit false

namespace PageEngine

/-! ## Row histories that are alike -/

/-- The event is a change by `t`, or its end. -/
def RowEvent.By (t : TxnId) : RowEvent → Prop
  | .changed u _ _ => u = t
  | .ended u _ => u = t
  | .registered .. => False

namespace RowHistory

variable {origin : RecordId → Option Bytes} {t u : TxnId} {r : RecordId} {row : Option Bytes}
  {E L L' : RowHistory} {e : RowEvent}

/-- The transaction has changed the same rows in both histories, and the committed rows are the same. -/
structure Alike (origin : RecordId → Option Bytes) (t : TxnId) (L L' : RowHistory) : Prop where
  own : ∀ r, own t r L = own t r L'
  committed : ∀ r, committed origin r L = committed origin r L'

theorem Alike.live (h : Alike origin t L L') (r : RecordId) : live origin t r L = live origin t r L' := by
  rw [RowHistory.live, RowHistory.live, h.own, h.committed]

/-- What follows does not tell apart two histories in which `t` has changed the same rows. -/
theorem own_append_congr (h : ∀ r, own t r L = own t r L') (E : RowHistory) (r : RecordId) :
    own t r (E ++ L) = own t r (E ++ L') := by
  induction E with
  | nil => exact h r
  | cons e E ih =>
    cases e with
    | changed u q row => simp only [List.cons_append, own, ih]
    | ended u c => simp only [List.cons_append, own, ih]
    | registered table rows => exact ih

/-- What `t` does, it does to both. -/
theorem Alike.append (h : Alike origin t L L') (hE : ∀ e ∈ E, e.By t) :
    Alike origin t (E ++ L) (E ++ L') := by
  refine ⟨own_append_congr h.own E, fun r => ?_⟩
  induction E with
  | nil => exact h.committed r
  | cons e E ih =>
    have hrest := ih fun x hx => hE x (List.mem_cons_of_mem _ hx)
    have he := hE e List.mem_cons_self
    cases e with
    | registered table rows => exact he.elim
    | changed u q row => exact hrest
    | ended u c =>
      obtain rfl : u = t := he
      cases c with
      | false => exact hrest
      | true => simp only [List.cons_append, RowHistory.committed, hrest, own_append_congr h.own E r]

/-- A registered file is the same in both. -/
theorem Alike.register (h : Alike origin t L L') (table : TableId) (rows : RecordId → Option Bytes) :
    Alike origin t (.registered table rows :: L) (.registered table rows :: L') where
  own := h.own
  committed r := by rw [RowHistory.committed, RowHistory.committed, h.committed]

theorem own_append_of_other (hE : ∀ e ∈ E, e.By t) (hu : u ≠ t) : own u r (E ++ L) = own u r L := by
  induction E with
  | nil => rfl
  | cons e E ih =>
    have hrest : own u r (E ++ L) = own u r L := ih fun x hx => hE x (List.mem_cons_of_mem _ hx)
    have he := hE e List.mem_cons_self
    cases e with
    | registered table rows => exact he.elim
    | changed v q row =>
      obtain rfl : v = t := he
      rw [List.cons_append, own, if_neg fun h => hu h.1.symm, hrest]
    | ended v c =>
      obtain rfl : v = t := he
      rw [List.cons_append, own_ended_other c hu, hrest]

end RowHistory

/-! ## What a call tells and owes -/

/-- The change that a call of `t` makes that serves the request with the tuple. -/
def Request.changes (asked : Option Request) (t : TxnId) (placed : Tuple) : List RowEvent :=
  ((asked.bind (·.rowChange placed)).map fun x => .changed t x.1 x.2).toList

namespace Task

/-- What the clients are told by the next section of a task, which turns the call into `c`: that the
transaction ends, or that a row has been changed. -/
def tells (k : Task) (asked : Option Request) (c : Call) : List RowEvent :=
  match k.call.activity with
  | .start (.complete commit) => [.ended k.call.txn commit]
  | _ =>
    match c.result? with
    | some (.ok _) => Request.changes asked k.call.txn c.tuple
    | _ => []

/-- The change that a task has made and that nobody has been told of. -/
def owes (k : Task) (asked : Option Request) : List RowEvent :=
  match k.call.activity with
  | .installing [] => Request.changes asked k.call.txn k.call.tuple
  | _ => []

end Task

/-- What a section puts into the ledger, what it tells, and what its task owed before and owes after. -/
inductive Transfer (t : TxnId) : (rows told before after : List RowEvent) → Prop
  | quiet : Transfer t [] [] [] []
  | ends (commit : Bool) : Transfer t [.ended t commit] [.ended t commit] [] []
  | stores (r : RecordId) (row : Option Bytes) :
      Transfer t [.changed t r row] [] [] [.changed t r row]
  | tells (r : RecordId) (row : Option Bytes) :
      Transfer t [] [.changed t r row] [.changed t r row] []

/-- What the next section of a task transfers. -/
def Task.Transfers (P : Pool Tables) (t : TxnId) (asked : Option Request) (k : Task) : Prop :=
  Transfer t
    ((k.events P (k.call.step P).1 (k.call.step P).2).flatMap
      (Event.rowEvents asked (k.call.step P).2.tuple))
    (k.tells asked (k.call.step P).2) (k.owes asked)
    (((k.after (k.call.step P).1 (k.call.step P).2).map (·.owes asked)).getD [])

namespace Transfer

variable {t : TxnId} {rows told before after : List RowEvent}

/-- **What is told is what has happened**, except for what is owed. -/
theorem balance (h : Transfer t rows told before after) : after ++ told = rows ++ before := by
  cases h with
  | quiet => rfl
  | ends c => rfl
  | stores r row => rfl
  | tells r row => rfl

theorem rows_by (h : Transfer t rows told before after) : ∀ e ∈ rows, e.By t := by
  cases h with
  | quiet => simp
  | ends c => simp [RowEvent.By]
  | stores r row => simp [RowEvent.By]
  | tells r row => simp

theorem told_by (h : Transfer t rows told before after) : ∀ e ∈ told, e.By t := by
  cases h with
  | quiet => simp
  | ends c => simp [RowEvent.By]
  | stores r row => simp
  | tells r row => simp [RowEvent.By]

/-- A change that is told has been owed. -/
theorem told_cases (h : Transfer t rows told before after) : told = [] ∨ (∃ c, told = [.ended t c]) ∨
    ∃ r row, told = [.changed t r row] ∧ before = [.changed t r row] := by
  cases h with
  | quiet => exact .inl rfl
  | ends c => exact .inr (.inl ⟨c, rfl⟩)
  | stores r row => exact .inl rfl
  | tells r row => exact .inr (.inr ⟨r, row, rfl, rfl⟩)

/-- What is owed is not committed. -/
theorem committed_after {origin : RecordId → Option Bytes} {r : RecordId}
    (h : Transfer t rows told before after) (L : RowHistory) :
    RowHistory.committed origin r (after ++ L) = RowHistory.committed origin r L := by
  cases h with
  | quiet => rfl
  | ends c => rfl
  | stores q row => rfl
  | tells q row => rfl

/-- What is told of a transaction that has not changed the row does not change it for another one. -/
theorem live_eq {origin : RecordId → Option Bytes} {L : RowHistory} {u : TxnId} {r : RecordId}
    (h : Transfer t rows told before after) (hu : u ≠ t) (hown : RowHistory.own t r L = none) :
    RowHistory.live origin u r (told ++ L) = RowHistory.live origin u r L := by
  rw [RowHistory.live, RowHistory.own_append_of_other h.told_by hu]
  rcases h.told_cases with rfl | ⟨c, rfl⟩ | ⟨q, row, rfl, -⟩
  · rfl
  · cases c with
    | false => rfl
    | true => rw [List.singleton_append, RowHistory.committed, hown, RowHistory.live, Option.getD_none]
  · rfl

end Transfer

section Sections

variable {P P' : Pool Tables} {h : History} {t : TxnId} {k : Task} {c : Call} {q : Request}
  {asked : Option Request}

theorem Request.changes_eq_nil (hq : ¬q.ChangesRow) (t : TxnId) (placed : Tuple) :
    changes (some q) t placed = [] := by
  simp [changes, Request.rowChange_eq_none hq]

/-- A request that changes no row leaves none in the ledger. -/
theorem Task.rowEvents_eq_nil (hq : ¬q.ChangesRow) (hend : ∀ b, k.call.activity ≠ .start (.complete b)) :
    (k.events P P' c).flatMap (Event.rowEvents (some q) c.tuple) = [] := by
  unfold Task.events
  split
  · rename_i b ha
    exact absurd ha (hend b)
  · rfl
  · split <;> rfl
  · split
    · simp [Event.rowEvents, Request.rowChange_eq_none hq]
    · rfl
  · rfl

/-- A call that has not written yet leaves no row in the ledger. -/
theorem Task.rowEvents_of_seeks (hseeks : k.call.activity.Seeks) :
    (k.events P P' c).flatMap (Event.rowEvents asked c.tuple) = [] := by
  unfold Task.events
  split
  · rename_i b ha
    rw [ha] at hseeks
    exact hseeks.elim
  · rfl
  · split <;> rfl
  · rename_i f fs ha
    rw [ha] at hseeks
    exact hseeks.elim
  · rfl

theorem Task.tells_eq_nil (hend : ∀ b, k.call.activity ≠ .start (.complete b))
    (hres : ∀ x, c.result? ≠ some (.ok x)) : k.tells asked c = [] := by
  unfold Task.tells
  split
  · rename_i b ha
    exact absurd ha (hend b)
  · split
    · rename_i x hx
      exact absurd hx (hres x)
    · rfl

theorem Task.owes_eq_nil (ha : k.call.activity ≠ .installing []) : k.owes asked = [] := by
  unfold Task.owes
  split
  · rename_i h
    exact absurd h ha
  · rfl

theorem Task.owes_eq_changed {r : RecordId} {row : Option Bytes}
    (h : k.owes (some q) = [.changed t r row]) :
    k.call.activity = .installing [] ∧ q.rowChange k.call.tuple = some (r, row) := by
  unfold Task.owes at h
  split at h
  · rename_i hact
    refine ⟨hact, ?_⟩
    rw [Request.changes] at h
    cases hx : q.rowChange k.call.tuple with
    | none => simp [hx] at h
    | some x =>
      have hsame : k.call.txn = t ∧ x.1 = r ∧ x.2 = row := by simpa [hx] using h
      rw [← hsame.2.1, ← hsame.2.2]
  · cases h

theorem Task.owes_after_eq_nil (ha : c.activity ≠ .installing []) :
    ((k.after P' c).map (·.owes asked)).getD [] = [] := by
  unfold Task.after
  split
  · rfl
  · exact Task.owes_eq_nil ha

/-- The section that ends a transaction says so at once. -/
theorem TaskInv.transfer_complete (hk : TaskInv P h t k) {b : Bool}
    (hact : k.call.activity = .start (.complete b)) :
    k.Transfers P t asked := by
  have hnext : (k.call.step P).2.activity ≠ .installing [] := by
    simp [Call.step, hact, Call.start, Call.goOn]
  rw [Task.Transfers, Task.owes_eq_nil (by simp [hact]), Task.owes_after_eq_nil hnext]
  simp only [Task.events, Task.tells, hact, hk.txn]
  exact .ends b

/-- A section of a call that changes no row has nothing to tell. -/
theorem Task.transfer_quiet (hq : ¬q.ChangesRow) (hend : ∀ b, k.call.activity ≠ .start (.complete b)) :
    k.Transfers P t (some q) := by
  have howes : ∀ k' : Task, k'.owes (some q) = [] := by
    intro k'
    unfold Task.owes
    split
    · exact Request.changes_eq_nil hq _ _
    · rfl
  have htells : k.tells (some q) (k.call.step P).2 = [] := by
    unfold Task.tells
    split
    · rename_i b ha
      exact absurd ha (hend b)
    · split
      · exact Request.changes_eq_nil hq _ _
      · rfl
  have hafter : ((k.after (k.call.step P).1 (k.call.step P).2).map (·.owes (some q))).getD [] = [] := by
    cases k.after (k.call.step P).1 (k.call.step P).2 with
    | none => rfl
    | some k' => exact howes k'
  rw [Task.Transfers, Task.rowEvents_eq_nil hq hend, htells, howes, hafter]
  exact .quiet

/-- A section of a call that has not written yet and goes on changes nothing and tells nothing. -/
theorem Task.transfer_search (hseeks : k.call.activity.Seeks)
    (hres : ∀ res, (k.call.step P).2.activity ≠ .finished res)
    (hinst : (k.call.step P).2.activity ≠ .installing []) : k.Transfers P t asked := by
  have hend : ∀ b, k.call.activity ≠ .start (.complete b) := by
    intro b hb
    rw [hb] at hseeks
    exact hseeks
  have hact : k.call.activity ≠ .installing [] := by
    intro ha
    rw [ha] at hseeks
    exact hseeks
  rw [Task.Transfers, Task.rowEvents_of_seeks hseeks, Task.owes_eq_nil hact,
    Task.owes_after_eq_nil hinst, Task.tells_eq_nil hend fun x hx => hres _ (Call.result?_eq_some.1 hx)]
  exact .quiet

/-- A section in which a call fails changes nothing and tells nothing. -/
theorem Task.transfer_fail (hend : ∀ b, k.call.activity ≠ .start (.complete b))
    (hact : k.call.activity ≠ .installing []) {e : Error}
    (hfail : (k.call.step P).2.activity = .finished (.error e)) : k.Transfers P t asked := by
  have hok : ∀ x, (k.call.step P).2.result? ≠ some (.ok x) := by
    intro x hx
    have := hfail.symm.trans (Call.result?_eq_some.1 hx)
    cases this
  rw [Task.Transfers, Task.rowEvents_of_finished hend hfail, Task.owes_eq_nil hact,
    Task.owes_after_eq_nil (by simp [hfail]), Task.tells_eq_nil hend hok]
  exact .quiet

/-- The section that installs a frame puts the change into the ledger. -/
theorem TaskInv.transfer_install (hk : TaskInv P h t k) (hr : RowTask P h t q k) {f : FrameId}
    (hact : k.call.activity = .installing [f]) (hnext : (k.call.step P).2.activity = .installing []) :
    k.Transfers P t (some q) := by
  have hrow := hr.activity
  rw [hact] at hrow
  obtain ⟨y, hdraft, x, slot, row, -, hchange, -⟩ := hrow
  have hstep : (k.call.step P).2 = k.call.goOn (.installing []) := by
    simp only [Call.step, hact] at hnext ⊢
    split at hnext
    · cases hnext
    · rfl
  have hchanges : Request.changes (some q) t k.call.tuple = [.changed t ⟨(P.page f).id, slot⟩ row] := by
    simp [Request.changes, hchange]
  have hrows : (k.events P (k.call.step P).1 (k.call.step P).2).flatMap
      (Event.rowEvents (some q) (k.call.step P).2.tuple) =
        [.changed t ⟨(P.page f).id, slot⟩ row] := by
    rw [← hchanges]
    simp [Task.events, hact, hstep, Call.result?, Call.goOn, hdraft, hk.txn, Event.rowEvents,
      Request.changes]
  have howes : ((k.after (k.call.step P).1 (k.call.step P).2).map (·.owes (some q))).getD [] =
      [.changed t ⟨(P.page f).id, slot⟩ row] := by
    rw [← hchanges]
    simp [Task.after, hstep, Call.result?, Call.goOn, Task.owes, hk.txn]
  rw [Task.Transfers, hrows, howes, Task.owes_eq_nil (by simp [hact]),
    Task.tells_eq_nil (by simp [hact]) (by simp [hstep, Call.result?, Call.goOn])]
  exact .stores _ _

/-- The section that returns tells what has been owed. -/
theorem TaskInv.transfer_return (hk : TaskInv P h t k) (hact : k.call.activity = .installing []) :
    k.Transfers P t asked := by
  have hstep : (k.call.step P).2 = k.call.finish (.ok .done) := by simp only [Call.step, hact]
  rw [Task.Transfers, Task.owes_after_eq_nil (by simp [hstep, Call.finish, Call.goOn])]
  simp only [Task.events, Task.tells, Task.owes, hact, hstep, Call.result?, Call.finish, Call.goOn,
    hk.txn, List.flatMap_nil]
  rw [Request.changes]
  cases asked.bind (·.rowChange k.call.tuple) with
  | none => exact .quiet
  | some x => exact .tells x.1 x.2

/-- **What a call does to a row is told when it returns, and not before.** -/
theorem TaskInv.transfer (hd : P.storage.Sound) (hk : TaskInv P h t k) (hr : RowTask P h t q k)
    (hway : q.ChangesRow → k.call.activity.OnWay) :
    k.Transfers P t (some q) := by
  by_cases hend : ∃ b, k.call.activity = .start (.complete b)
  · obtain ⟨b, hact⟩ := hend
    exact hk.transfer_complete hact
  have hend : ∀ b, k.call.activity ≠ .start (.complete b) := fun b hb => hend ⟨b, hb⟩
  by_cases hq : q.ChangesRow
  · by_cases hact : k.call.activity = .installing []
    · exact hk.transfer_return hact
    have hadv := hk.advances hd (hway hq)
    generalize hnext : (k.call.step P).2.activity = next at hadv
    cases hadv with
    | seeks ha hb =>
      refine Task.transfer_search ha (fun res hres => ?_) fun hinst => ?_
      · rw [← hnext, hres] at hb
        exact hb.elim
      · rw [← hnext, hinst] at hb
        exact hb.elim
    | fails e => exact Task.transfer_fail hend hact hnext
    | @writes p f use ha =>
      have hseeks : k.call.activity.Seeks := by
        rcases hway hq with hseeks | ⟨fs, hfs⟩
        · exact hseeks
        · rw [ha] at hfs
          cases hfs
      exact Task.transfer_search hseeks (by simp [hnext]) (by simp [hnext])
    | installs ha => exact hk.transfer_install hr ha hnext
    | returns ha => exact hk.transfer_return ha
  · exact Task.transfer_quiet hq hend

end Sections

end PageEngine
