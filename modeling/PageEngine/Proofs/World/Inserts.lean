import PageEngine.Proofs.World.Rows

/-!
# `Proofs/World/Inserts.lean` — which inserts of a row history are live

A row history says who has put which row where, who has taken it away again, and who has committed. Which
inserts are **live** can be read off it without computing any state: those that count, and that no later
delete that counts has undone. Whether a change counts depends on how its transaction ended; for those that
have not ended it is up to the reader, who may look at the rows with the open changes of any set of
transactions.

`RowHistory.view` computes the rows for such a set, with no set at all the committed ones. In an orderly
history, where a transaction puts a row only where it sees none and changes only what nobody else has
changed:

> **a row is there if and only if a live insert has put it there**, and no record id has two live inserts.
-/

set_option autoImplicit false

namespace PageEngine

namespace RowHistory

/-! ## Live inserts -/

/-- How a transaction that was running then has ended in the events that came after. -/
def fate (t : TxnId) : RowHistory → Option Bool
  | [] => none
  | .ended u c :: L => (fate t L).or (if u = t then some c else none)
  | .changed .. :: L => fate t L
  | .registered .. :: L => fate t L

/-- A change of `t` from before these events counts: `t` has committed, or it has not ended and is one of
the transactions `A`. -/
def Counts (A : TxnId → Bool) (t : TxnId) (after : RowHistory) : Prop := (fate t after).getD (A t) = true

/-- The event, which others came after, has put the row under the record id. -/
def Brings (A : TxnId → Bool) (r : RecordId) (row : Bytes) (after : RowHistory) : RowEvent → Prop
  | .changed t q (some x) => q = r ∧ x = row ∧ Counts A t after
  | .registered table rows => table = r.page.table ∧ rows r = some row
  | _ => False

/-- The event, which others came after, has taken away what was there under the record id. -/
def Clears (A : TxnId → Bool) (r : RecordId) (after : RowHistory) : RowEvent → Prop
  | .changed t q none => q = r ∧ Counts A t after
  | .registered table _ => table = r.page.table
  | _ => False

/-- None of the events has taken away what was there before them. -/
def Kept (A : TxnId → Bool) (r : RecordId) (L : RowHistory) : Prop :=
  ∀ after e before, L = after ++ e :: before → ¬Clears A r after e

/-- The event `e` of the history has put the row under the record id, and none of the events `after` it has
taken it away. -/
structure LiveInsert (A : TxnId → Bool) (r : RecordId) (row : Bytes) (L after : RowHistory) (e : RowEvent)
    (before : RowHistory) : Prop where
  split : L = after ++ e :: before
  brings : Brings A r row after e
  kept : Kept A r after

/-- A live insert has put the row under the record id, or it was there in the beginning and is still. -/
def Present (origin : RecordId → Option Bytes) (A : TxnId → Bool) (r : RecordId) (row : Bytes)
    (L : RowHistory) : Prop :=
  (∃ after e before, LiveInsert A r row L after e before) ∨ (origin r = some row ∧ Kept A r L)

/-- The row under a record id, with the changes of the transactions `A` that have not ended. -/
def view (origin : RecordId → Option Bytes) (A : TxnId → Bool) (r : RecordId) : RowHistory → Option Bytes
  | [] => origin r
  | .changed t q row :: L => if A t = true ∧ q = r then row else view origin A r L
  | .ended t c :: L => view origin (Function.update A t c) r L
  | .registered table rows :: L => if table = r.page.table then rows r else view origin A r L

/-- A transaction changes only what nobody else has an open change of, and puts a row only where it sees
none. A table is registered before it is used. -/
def Orderly (origin : RecordId → Option Bytes) : RowHistory → Prop
  | [] => True
  | .changed t r row :: L =>
    (∀ u, u ≠ t → own u r L = none) ∧ (row ≠ none → live origin t r L = none) ∧ Orderly origin L
  | .ended .. :: L => Orderly origin L
  | .registered table _ :: L => (∀ t r, r.page.table = table → own t r L = none) ∧ Orderly origin L

variable {origin : RecordId → Option Bytes} {A : TxnId → Bool} {t u : TxnId} {r : RecordId}
  {row row' : Bytes} {L after before after' before' : RowHistory} {e e' : RowEvent}

/-! ## One event more -/

/-- Whose changes count before an event. -/
def settle (A : TxnId → Bool) : RowEvent → TxnId → Bool
  | .ended t c => Function.update A t c
  | _ => A

theorem counts_cons : Counts A t (e :: after) ↔ Counts (settle A e) t after := by
  cases e with
  | changed u q x => exact Iff.rfl
  | registered table rows => exact Iff.rfl
  | ended u c =>
    rw [Counts, Counts, fate, settle]
    cases fate t after with
    | some b => exact Iff.rfl
    | none =>
      by_cases hu : u = t
      · subst hu
        simp
      · simp [hu, Ne.symm hu]

theorem clears_cons : Clears A r (e :: after) e' ↔ Clears (settle A e) r after e' := by
  unfold Clears
  split
  · rw [counts_cons]
  · exact Iff.rfl
  · exact Iff.rfl

theorem brings_cons : Brings A r row (e :: after) e' ↔ Brings (settle A e) r row after e' := by
  unfold Brings
  split
  · rw [counts_cons]
  · exact Iff.rfl
  · exact Iff.rfl

@[simp] theorem kept_nil : Kept A r [] := fun after e before h => by simp at h

theorem kept_cons : Kept A r (e :: L) ↔ ¬Clears A r [] e ∧ Kept (settle A e) r L := by
  constructor
  · intro h
    refine ⟨h [] e L rfl, fun after x before hL => ?_⟩
    rw [← clears_cons]
    exact h (e :: after) x before (by rw [hL, List.cons_append])
  · rintro ⟨hfirst, hrest⟩ after x before hL
    cases after with
    | nil =>
      obtain ⟨rfl, -⟩ := List.cons.inj hL
      exact hfirst
    | cons y after =>
      obtain ⟨rfl, hlater⟩ := List.cons.inj hL
      rw [clears_cons]
      exact hrest after x before hlater

/-- A live insert is the last event, or it was live before and the last event has not undone it. -/
theorem liveInsert_cons : LiveInsert A r row (e :: L) after e' before ↔
    (after = [] ∧ e' = e ∧ before = L ∧ Brings A r row [] e) ∨
    ∃ later, after = e :: later ∧ ¬Clears A r [] e ∧
      LiveInsert (settle A e) r row L later e' before := by
  constructor
  · rintro ⟨hsplit, hbrings, hkept⟩
    cases after with
    | nil =>
      obtain ⟨rfl, rfl⟩ := List.cons.inj hsplit
      exact .inl ⟨rfl, rfl, rfl, hbrings⟩
    | cons x later =>
      obtain ⟨rfl, hL⟩ := List.cons.inj hsplit
      obtain ⟨hfirst, hrest⟩ := kept_cons.1 hkept
      exact .inr ⟨later, rfl, hfirst, hL, brings_cons.1 hbrings, hrest⟩
  · rintro (⟨rfl, rfl, rfl, hbrings⟩ | ⟨later, rfl, hfirst, hL, hbrings, hrest⟩)
    · exact ⟨rfl, hbrings, kept_nil⟩
    · exact ⟨by rw [hL, List.cons_append], brings_cons.2 hbrings, kept_cons.2 ⟨hfirst, hrest⟩⟩

theorem present_cons : Present origin A r row (e :: L) ↔
    Brings A r row [] e ∨ (¬Clears A r [] e ∧ Present origin (settle A e) r row L) := by
  rw [Present, Present, kept_cons]
  constructor
  · rintro (⟨after, x, before, hlive⟩ | ⟨horigin, hclears, hkept⟩)
    · rcases liveInsert_cons.1 hlive with ⟨-, -, -, hbrings⟩ | ⟨later, -, hclears, hlater⟩
      · exact .inl hbrings
      · exact .inr ⟨hclears, .inl ⟨_, _, _, hlater⟩⟩
    · exact .inr ⟨hclears, .inr ⟨horigin, hkept⟩⟩
  · rintro (hbrings | ⟨hclears, ⟨after, x, before, hlive⟩ | ⟨horigin, hkept⟩⟩)
    · exact .inl ⟨_, _, _, liveInsert_cons.2 (.inl ⟨rfl, rfl, rfl, hbrings⟩)⟩
    · exact .inl ⟨_, _, _, liveInsert_cons.2 (.inr ⟨after, rfl, hclears, hlive⟩)⟩
    · exact .inr ⟨horigin, hclears, hkept⟩

/-! ## The rows of an orderly history -/

theorem Orderly.of_cons (hO : Orderly origin (e :: L)) : Orderly origin L := by
  cases e with
  | changed t q x => exact hO.2.2
  | ended t c => exact hO
  | registered table rows => exact hO.2

/-- The reader of the open changes of `A` sees the one of this row, or without one the committed row. -/
structure Sees (origin : RecordId → Option Bytes) (A : TxnId → Bool) (r : RecordId) (L : RowHistory) :
    Prop where
  own : ∀ u x, A u = true → own u r L = some x → view origin A r L = x
  committed : (∀ u, A u = true → RowHistory.own u r L = none) →
    view origin A r L = committed origin r L

theorem Sees.changed {x : Option Bytes} {q : RecordId} (h : Sees origin A r L)
    (hothers : ∀ u, u ≠ t → RowHistory.own u q L = none) : Sees origin A r (.changed t q x :: L) := by
  by_cases hq : q = r
  · subst hq
    by_cases ht : A t = true
    · refine ⟨fun u y hu hy => ?_, fun hall => ?_⟩
      · by_cases hut : u = t
        · subst hut
          rw [RowHistory.own, if_pos ⟨rfl, rfl⟩] at hy
          rw [view, if_pos ⟨ht, rfl⟩]
          exact Option.some.inj hy
        · rw [RowHistory.own, if_neg fun h => hut h.1.symm, hothers u hut] at hy
          cases hy
      · have hself := hall t ht
        rw [RowHistory.own, if_pos ⟨rfl, rfl⟩] at hself
        cases hself
    · -- The reader does not look at the change.
      have hrest : ∀ u, A u = true → RowHistory.own u q L = none := fun u hu =>
        hothers u fun h => ht (h ▸ hu)
      refine ⟨fun u y hu hy => ?_, fun _ => ?_⟩
      · have hut : u ≠ t := fun h => ht (h ▸ hu)
        rw [RowHistory.own, if_neg fun h => hut h.1.symm, hrest u hu] at hy
        cases hy
      · rw [view, if_neg fun h => ht h.1]
        exact h.committed hrest
  · have hskip : ∀ u, RowHistory.own u r (.changed t q x :: L) = RowHistory.own u r L :=
      fun u => if_neg fun h => hq h.2
    have hview : view origin A r (.changed t q x :: L) = view origin A r L := if_neg fun h => hq h.2
    refine ⟨fun u y hu hy => ?_, fun hall => ?_⟩
    · rw [hview]
      exact h.own u y hu ((hskip u).symm.trans hy)
    · rw [hview]
      exact h.committed fun u hu => (hskip u).symm.trans (hall u hu)

/-- At a commit the open change of the transaction becomes the committed row. -/
theorem Sees.ended {c : Bool} (h : Sees origin (Function.update A t c) r L) :
    Sees origin A r (.ended t c :: L) := by
  refine ⟨fun u x hu hx => ?_, fun hall => ?_⟩
  · have hut : u ≠ t := by
      rintro rfl
      rw [own_ended_self] at hx
      cases hx
    rw [own_ended_other c hut] at hx
    exact h.own u x (by rw [Function.update_of_ne hut, hu]) hx
  · have hother : ∀ u, u ≠ t → A u = true → RowHistory.own u r L = none := by
      intro u hut hu
      rw [← own_ended_other c hut]
      exact hall u hu
    cases c with
    | false =>
      refine h.committed fun u hu => ?_
      have hut : u ≠ t := by
        rintro rfl
        simp at hu
      exact hother u hut (by rwa [Function.update_of_ne hut] at hu)
    | true =>
      rw [RowHistory.committed]
      cases ht : RowHistory.own t r L with
      | some x => exact h.own t x (Function.update_self t true A) ht
      | none =>
        refine h.committed fun u hu => ?_
        by_cases hut : u = t
        · rw [hut, ht]
        · exact hother u hut (by rwa [Function.update_of_ne hut] at hu)

theorem Sees.registered {table : TableId} {rows : RecordId → Option Bytes} (h : Sees origin A r L)
    (hfresh : ∀ u, table = r.page.table → RowHistory.own u r L = none) :
    Sees origin A r (.registered table rows :: L) := by
  by_cases htable : table = r.page.table
  · refine ⟨fun u x _ hx => ?_, fun _ => ?_⟩
    · rw [RowHistory.own, hfresh u htable] at hx
      cases hx
    · rw [view, RowHistory.committed, if_pos htable, if_pos htable]
  · have hview : view origin A r (.registered table rows :: L) = view origin A r L := if_neg htable
    refine ⟨fun u x hu hx => hview.trans (h.own u x hu hx), fun hall => ?_⟩
    rw [hview, RowHistory.committed, if_neg htable]
    exact h.committed hall

/-- **Of the transactions that a reader looks at, at most one has an open change of a row.** What is there is
this change, or without one the committed row. -/
theorem Orderly.sees (hO : Orderly origin L) : ∀ A : TxnId → Bool, Sees origin A r L := by
  induction L with
  | nil => exact fun A => ⟨fun u x _ hx => (by cases hx), fun _ => rfl⟩
  | cons e L ih =>
    intro A
    cases e with
    | changed t q row => exact (ih hO.2.2 A).changed hO.1
    | ended t c => exact Sees.ended (ih hO (Function.update A t c))
    | registered table rows => exact (ih hO.2 A).registered fun u htable => hO.1 u r htable.symm

theorem Orderly.view_none (hO : Orderly origin L) (r : RecordId) :
    view origin (fun _ => false) r L = committed origin r L :=
  (hO.sees _).committed fun u hu => by cases hu

/-- Where a transaction puts a row none of its readers sees one. -/
theorem Orderly.view_of_insert {x : Bytes} (hO : Orderly origin (.changed t r (some x) :: L))
    (ht : A t = true) : view origin A r L = none := by
  obtain ⟨hothers, hlive, hL⟩ := hO
  have hsees := hL.sees (r := r) A
  have hlive : live origin t r L = none := hlive (by simp)
  unfold live at hlive
  cases hx : own t r L with
  | some y =>
    rw [hx] at hlive
    rw [hsees.own t y ht hx]
    exact hlive
  | none =>
    rw [hx] at hlive
    rw [hsees.committed fun u _ => ?_]
    · exact hlive
    · by_cases hut : u = t
      · rw [hut, hx]
      · exact hothers u hut

/-- A row is there after an event if the event has brought it, or has left it there. -/
theorem Orderly.view_cons (hO : Orderly origin (e :: L)) : view origin A r (e :: L) = some row ↔
    Brings A r row [] e ∨ (¬Clears A r [] e ∧ view origin (settle A e) r L = some row) := by
  cases e with
  | ended t c => exact ⟨fun h => .inr ⟨id, h⟩, fun h => (h.resolve_left id).2⟩
  | changed t q x =>
    by_cases hq : A t = true ∧ q = r
    · obtain ⟨ht, rfl⟩ := hq
      rw [view, if_pos ⟨ht, rfl⟩]
      cases x with
      | none =>
        refine ⟨fun h => (by cases h), ?_⟩
        rintro (h | ⟨hclears, -⟩)
        · exact h.elim
        · exact absurd ⟨rfl, ht⟩ hclears
      | some y =>
        constructor
        · exact fun hy => .inl ⟨rfl, Option.some.inj hy, ht⟩
        · -- An older one would be seen by the transaction that has put the row there.
          rintro (⟨-, rfl, -⟩ | ⟨-, hseen⟩)
          · rfl
          · have hnone : view origin A q L = none := hO.view_of_insert ht
            exact absurd (hnone.symm.trans hseen) (by simp)
    · have hcounts : ¬(q = r ∧ Counts A t []) := fun h => hq ⟨h.2, h.1⟩
      rw [view, if_neg hq]
      cases x with
      | none => exact ⟨fun h => .inr ⟨hcounts, h⟩, fun h => (h.resolve_left id).2⟩
      | some y =>
        exact ⟨fun h => .inr ⟨id, h⟩, fun h => (h.resolve_left fun hb => hcounts ⟨hb.1, hb.2.2⟩).2⟩
  | registered table rows =>
    by_cases htable : table = r.page.table
    · rw [view, if_pos htable]
      exact ⟨fun h => .inl ⟨htable, h⟩, fun h => (h.resolve_right fun hc => hc.1 htable).2⟩
    · rw [view, if_neg htable]
      exact ⟨fun h => .inr ⟨htable, h⟩, fun h => (h.resolve_left fun hb => htable hb.1).2⟩

/-- **A row is there exactly if a live insert has put it there**, or it was there in the beginning and was
never taken away. -/
theorem Orderly.view_iff (hO : Orderly origin L) : ∀ A : TxnId → Bool,
    view origin A r L = some row ↔ Present origin A r row L := by
  induction L with
  | nil =>
    intro A
    constructor
    · exact fun h => .inr ⟨h, kept_nil⟩
    · rintro (⟨after, e, before, hsplit, -, -⟩ | ⟨h, -⟩)
      · simp at hsplit
      · exact h
  | cons e L ih =>
    intro A
    rw [hO.view_cons, present_cons, ih hO.of_cons]

/-- An event that puts a row where it takes nothing away finds no row there. -/
theorem Orderly.not_present_of_brings (hO : Orderly origin (e :: L)) (hbrings : Brings A r row [] e)
    (hclears : ¬Clears A r [] e) : ¬Present origin (settle A e) r row' L := by
  rw [← hO.of_cons.view_iff]
  cases e with
  | ended t c => exact hbrings.elim
  | registered table rows => exact absurd hbrings.1 hclears
  | changed t q y =>
    cases y with
    | none => exact hbrings.elim
    | some y =>
      obtain ⟨rfl, -, ht⟩ := hbrings
      have hnone : view origin A q L = none := hO.view_of_insert ht
      exact fun hseen => absurd (hnone.symm.trans hseen) (by simp)

/-- **No record id has two live inserts.** -/
theorem Orderly.liveInsert_unique (hO : Orderly origin L) : ∀ {A : TxnId → Bool}
    {after after' : RowHistory}, LiveInsert A r row L after e before →
      LiveInsert A r row' L after' e' before' → after = after' ∧ e = e' ∧ before = before' := by
  induction L with
  | nil => exact fun h _ => absurd h.split (by simp)
  | cons x L ih =>
    intro A after after' h h'
    rcases liveInsert_cons.1 h with ⟨rfl, rfl, rfl, hb⟩ | ⟨later, rfl, hc, hl⟩ <;>
      rcases liveInsert_cons.1 h' with ⟨rfl, rfl, rfl, hb'⟩ | ⟨later', rfl, hc', hl'⟩
    · exact ⟨rfl, rfl, rfl⟩
    · exact absurd (.inl ⟨_, _, _, hl'⟩) (hO.not_present_of_brings hb hc')
    · exact absurd (.inl ⟨_, _, _, hl⟩) (hO.not_present_of_brings hb' hc)
    · obtain ⟨rfl, rfl, rfl⟩ := ih hO.of_cons hl hl'
      exact ⟨rfl, rfl, rfl⟩

/-- A row from the beginning that is still there has no live insert beside it. -/
theorem Orderly.not_liveInsert (hO : Orderly origin L) {x : Bytes} (hx : origin r = some x) :
    ∀ {A : TxnId → Bool} {after : RowHistory}, Kept A r L → ¬LiveInsert A r row L after e before := by
  induction L with
  | nil => exact fun _ h => absurd h.split (by simp)
  | cons y L ih =>
    intro A after hkept hlive
    obtain ⟨hclears, hkept⟩ := kept_cons.1 hkept
    rcases liveInsert_cons.1 hlive with ⟨-, -, -, hbrings⟩ | ⟨later, -, -, hlater⟩
    · exact hO.not_present_of_brings hbrings hclears (.inr ⟨hx, hkept⟩)
    · exact ih hO.of_cons hkept hlater

end RowHistory

end PageEngine
