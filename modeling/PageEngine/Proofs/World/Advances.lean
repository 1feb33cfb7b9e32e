import PageEngine.Proofs.World.Requests

/-!
# `Proofs/World/Advances.lean` — how a call that changes a row goes on

A call that inserts or deletes a row looks for its page, writes to it, installs it and returns. Along this
way there is one place only where it can return without an error:

> **such a call writes before it installs, and returns a result only after it has installed what it has
> written**; from everywhere else it goes on, or fails.

An insert writes where its transaction sees no row.
-/

set_option autoImplicit false

namespace PageEngine

/-! ## The way of a call -/

/-- The request is to change a row. -/
def Request.ChangesRow : Request → Prop
  | .insert .. => True
  | .delete _ => True
  | _ => False

theorem Request.rowChange_eq_none {q : Request} (hq : ¬q.ChangesRow) (placed : Tuple) :
    q.rowChange placed = none := by
  cases q with
  | insert table asked => exact absurd trivial hq
  | delete asked => exact absurd trivial hq
  | _ => rfl

/-- A call at this section is on its way to a row that it has not changed yet. -/
def Activity.Seeks : Activity → Prop
  | .start r => r.ChangesRow
  | .locking _ _ use => use.Writes
  | .sleeping _ _ _ use => use.Writes
  | .fetching _ use => use.Writes
  | .working _ _ use => use.Writes
  | .dropping _ => True
  | .counting _ => True
  | .growing _ => True
  | _ => False

/-- How a call that changes a row goes on from one section to the next. -/
inductive Activity.Advances (a : Activity) : Activity → Prop
  | seeks {b : Activity} : a.Seeks → b.Seeks → Advances a b
  | fails (e : Error) : Advances a (.finished (.error e))
  | writes {p : PageId} {f : FrameId} {use : Use} : a = .working p f use → Advances a (.installing [f])
  | installs {f : FrameId} : a = .installing [f] → Advances a (.installing [])
  | returns : a = .installing [] → Advances a (.finished (.ok .done))

/-- A call at this section is to change a row, and has not returned yet. -/
def Activity.OnWay (a : Activity) : Prop := a.Seeks ∨ ∃ fs, a = .installing fs

theorem Activity.Advances.onWay {a b : Activity} (h : a.Advances b) : b.OnWay ∨ ∃ res, b = .finished res := by
  cases h with
  | seeks _ hb => exact .inl (.inl hb)
  | fails e => exact .inr ⟨_, rfl⟩
  | writes _ => exact .inl (.inr ⟨_, rfl⟩)
  | installs _ => exact .inl (.inr ⟨_, rfl⟩)
  | returns _ => exact .inr ⟨_, rfl⟩

section Calls

variable {origin : RecordId → Option Bytes} {P : Pool Tables} {h : History} {t : TxnId} {k : Task}
  {L : RowHistory} {q : Request}

theorem Call.tryNext_seeks (c : Call) (P : Pool Tables) (i : Insertion) :
    (c.tryNext P i).activity.Seeks := by
  unfold tryNext
  split
  · trivial
  · trivial

/-- An insert goes on from a full page. -/
theorem Call.place_full_seeks (c : Call) {f : FrameId} {i : Insertion}
    (hfull : i.heap.layout.freeSlot (P.page f).data = none) : (c.place P f i).2.activity.Seeks := by
  simp only [place, hfull]
  split
  · exact tryNext_seeks _ _ _
  · trivial

theorem Activity.Advances.start {a : Activity} {c : Call} (hd : P.storage.Sound)
    (hthrough : (Action.request t q).ThroughPool) (hq : q.ChangesRow) (ha : a.Seeks) :
    a.Advances (c.start P q).2.activity := by
  cases q with
  | insert table asked =>
    simp only [Call.start]
    split
    · exact .fails _
    · rename_i s hs
      obtain ⟨x, rfl, -⟩ := hd.heap_of_store hs
      simp only [Call.startInsert]
      split
      · exact .seeks ha trivial
      · exact .fails _
  | delete asked =>
    simp only [Call.start]
    split
    · exact .fails _
    · split
      · exact .fails _
      · rename_i s hs
        obtain ⟨x, rfl, -⟩ := hd.heap_of_store hs
        simp only [Call.startDelete]
        split
        · exact .fails _
        · split
          · exact .fails _
          · exact .seeks ha trivial
  | insertInto s asked => exact hthrough.elim
  | deleteFrom s asked => exact hthrough.elim
  | lock p m => exact hq.elim
  | get p a => exact hq.elim
  | scan x => exact hq.elim
  | complete b => exact hq.elim

theorem Activity.Advances.attempt {a : Activity} {c : Call} {p : PageId} {m : Mode} {use : Use}
    (ha : a.Seeks) (hw : use.Writes) : a.Advances (c.attemptLock P p m use).2.activity := by
  unfold Call.attemptLock
  split
  · cases use with
    | place i => exact .seeks ha trivial
    | remove x slot => exact .seeks ha trivial
    | holdLock => exact hw.elim
    | deliver => exact hw.elim
    | collect x pages next rows => exact hw.elim
  · exact .seeks ha hw
  · exact .fails _

theorem Activity.Advances.useFrame {c : Call} {p : PageId} {f : FrameId} {use : Use}
    (hinst : c.installs = true) (hw : use.Writes) :
    (Activity.working p f use).Advances (c.useFrame P p f use).2.activity := by
  cases use with
  | place i =>
    cases hslot : i.heap.layout.freeSlot (P.page f).data with
    | some slot =>
      simp only [Call.useFrame, Call.place, hslot, Call.changed, hinst, if_true]
      exact .writes rfl
    | none => exact .seeks trivial (c.place_full_seeks hslot)
  | remove x slot =>
    simp only [Call.useFrame, Call.remove]
    split
    · simp only [Call.changed, hinst, if_true]
      exact .writes rfl
    · exact .fails _
  | holdLock => exact hw.elim
  | deliver => exact hw.elim
  | collect x pages next rows => exact hw.elim

/-- **A call that changes a row returns only after it has installed what it has written.** -/
theorem TaskInv.advances (hd : P.storage.Sound) (hk : TaskInv P h t k) (hway : k.call.activity.OnWay) :
    k.call.activity.Advances (k.call.step P).2.activity := by
  have hinv := hk.activity
  rcases hway with hseeks | ⟨fs, hfs⟩
  · cases ha : k.call.activity with
    | start q =>
      rw [ha] at hinv hseeks
      simp only [Call.step, ha]
      exact .start hd hinv.1 hseeks hseeks
    | locking p m use =>
      rw [ha] at hseeks
      simp only [Call.step, ha]
      exact .attempt hseeks hseeks
    | sleeping ticket p m use =>
      rw [ha] at hseeks
      simp only [Call.step, ha]
      split
      · rw [ha]
        exact .seeks hseeks hseeks
      · exact .attempt hseeks hseeks
    | fetching p use =>
      rw [ha] at hseeks
      simp only [Call.step, ha]
      split
      · exact .fails _
      · exact .seeks hseeks hseeks
    | working p f use =>
      rw [ha] at hseeks
      simp only [Call.step, ha]
      exact .useFrame hk.installs hseeks
    | dropping i =>
      simp only [Call.step, ha]
      split
      · exact .fails _
      · exact .seeks trivial (Call.tryNext_seeks _ _ _)
    | counting i =>
      simp only [Call.step, ha]
      split
      · exact .fails _
      · exact .seeks trivial (Call.tryNext_seeks _ _ _)
    | growing i =>
      simp only [Call.step, ha]
      split
      · exact .fails _
      · exact .seeks trivial trivial
    | installing fs =>
      rw [ha] at hseeks
      exact hseeks.elim
    | releasing commit res =>
      rw [ha] at hseeks
      exact hseeks.elim
    | ending commit res =>
      rw [ha] at hseeks
      exact hseeks.elim
    | finished res =>
      rw [ha] at hseeks
      exact hseeks.elim
  · rw [hfs] at hinv ⊢
    rcases hinv.installing_cases with rfl | ⟨f, -, rfl, -, -⟩
    · simp only [Call.step, hfs]
      exact .returns rfl
    · simp only [Call.step, hfs]
      split
      · exact .fails _
      · exact .installs rfl

/-! ## Where an insert writes -/

/-- **An insert writes where its transaction sees no row.** -/
theorem RowsAgree.vacant_of_written (ha : RowsAgree origin P.storage h L) (hk : TaskInv P h t k)
    (hr : RowTask P h t q k) {p : PageId} {f g : FrameId} {use : Use}
    (hact : k.call.activity = .working p f use)
    (hnext : (k.call.step P).2.activity = .installing [g]) {r : RecordId} {row : Bytes}
    (hrow : q.rowChange (k.call.step P).2.tuple = some (r, some row)) :
    RowHistory.live origin t r L = none := by
  have hinv := hk.activity
  have huse := hr.activity
  rw [hact] at hinv huse
  obtain ⟨-, hfits, hh, -⟩ := hinv
  simp only [Call.step, hact] at hnext hrow
  cases use with
  | place i =>
    obtain ⟨rfl, hreg, -⟩ := hfits
    obtain ⟨table, asked, rfl, -, -⟩ := huse
    cases hslot : i.heap.layout.freeSlot (P.page f).data with
    | some slot =>
      simp only [Call.useFrame, Call.place, hslot, Call.changed, hk.installs, if_true, Call.goOn,
        Request.rowChange, Option.map_some, Option.some.injEq, Prod.mk.injEq] at hrow
      rw [← hrow.1, ← ha.rowAt_shown (p := i.page) hreg hh.image.hasPage.1, ← hh.data_eq,
        SlotLayout.rowAt, if_neg]
      simp [(SlotLayout.freeSlot_spec hslot).2]
    | none =>
      have hseeks : (k.call.useFrame P i.page f (.place i)).2.activity.Seeks :=
        k.call.place_full_seeks hslot
      rw [hnext] at hseeks
      exact hseeks.elim
  | remove x slot =>
    obtain ⟨-, -, asked, rfl, hasked⟩ := huse
    simp [Request.rowChange, hasked] at hrow
  | holdLock => simp [Call.useFrame, Call.finish, Call.goOn] at hnext
  | deliver => simp [Call.useFrame, Call.finish, Call.goOn] at hnext
  | collect x pages next rows =>
    simp only [Call.useFrame, Call.collectNext] at hnext
    split at hnext
    · cases hnext
    · cases hnext

end Calls

end PageEngine
