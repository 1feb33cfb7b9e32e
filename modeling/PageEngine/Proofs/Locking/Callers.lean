import Mathlib.Logic.Function.Basic
import PageEngine.Proofs.Locking.Graph

/-!
# `Proofs/Locking/Callers.lean` — transactions at a lock table

A run of a lock table by any number of transactions, each with at most one call in flight. A call that
does not end in the section in which it is made, or in which it asks again, is **blocked**: it sleeps
until a release wakes it, and once woken it asks again whenever its turn comes. In between anybody
else may be served, so that a page that was freed for it can be gone again.

What the run relation does not say and every reachable state obeys is `Callers.Inv`:

> **a call that sleeps does so on the present record of its page**, so the page has a holder, and the
> table lists as waiting exactly the blocked transactions, each with the page of its blocked call.
-/

set_option autoImplicit false

namespace PageEngine

open Std

/-! ## Sleeping calls and records -/

namespace LockTable

/-- Every call that sleeps does so on the present record of its page. -/
def Attended (L : LockTable) : Prop :=
  ∀ (k : Nat) (s : Sleeper), L.sleepers[k]? = some s →
    ∃ r, L.records[s.page]? = some r ∧ r.stamp = s.stamp

theorem Attended.congr {L L' : LockTable} (h : L.Attended) (hr : L'.records = L.records)
    (hs : L'.sleepers = L.sleepers) : L'.Attended := by
  intro k s hk
  rw [hr]
  exact h k s (hs ▸ hk)

theorem Attended.grant {L : LockTable} (h : L.Attended) (p : PageId) (t : TxnId) (l : Lock) :
    (L.grant p t (L.recordFor p) l).Attended := by
  intro k s hk
  obtain ⟨r, hr, hstamp⟩ := h k s hk
  by_cases hp : s.page = p
  · subst hp
    refine ⟨{ L.recordFor s.page with lock := l }, by simp [LockTable.grant], ?_⟩
    simpa [recordFor, hr] using hstamp
  · refine ⟨r, ?_, hstamp⟩
    simpa [LockTable.grant, stopWaiting, ExtTreeMap.getElem?_insert, Ne.symm hp] using hr

theorem exists_record_of_refused {L : LockTable} {p : PageId} {t : TxnId} {m : Mode}
    (h : (L.lock p).tryAcquire t m = none) :
    ∃ r, L.records[p]? = some r ∧ r.stamp = (L.recordFor p).stamp := by
  cases hr : L.records[p]? with
  | none =>
    rw [lock_of_none hr] at h
    have hfree := Lock.tryAcquire_of_isFree (l := .free) rfl t m
    rw [h] at hfree
    cases hfree
  | some r => exact ⟨r, rfl, by simp [recordFor, hr]⟩

theorem Attended.attempt {L : LockTable} (h : L.Attended) (p : PageId) (t : TxnId) (m : Mode) :
    (L.attempt p t m).1.Attended := by
  rcases L.attempt_cases p t m with ⟨l, -, ha⟩ | ⟨-, -, ha⟩ | ⟨hrefused, -, ha⟩
  · rw [ha]
    exact h.grant p t l
  · rw [ha]
    exact h.congr rfl rfl
  · rw [ha]
    intro k s hk
    simp only [putToSleep, waitFor, ExtTreeMap.getElem?_insert, Std.compare_eq_iff_eq] at hk
    split at hk
    · obtain rfl : _ = s := Option.some.inj hk
      exact exists_record_of_refused hrefused
    · exact h k s hk

theorem Attended.releaseRecord {L R : LockTable} (h : L.Attended) {p : PageId} {t : TxnId}
    (hR : L.releaseRecord p t = .ok R) : R.Attended := by
  obtain ⟨r, l, hr, -, hRdef⟩ := releaseRecord_cases hR
  intro k s hk
  have hk' : L.sleepers[k]? = some s ∧ s.stamp ≠ r.stamp := by
    rw [hRdef] at hk
    simpa [wake, Option.filter_eq_some_iff] using hk
  obtain ⟨r', hr', hstamp⟩ := h k s hk'.1
  -- The sleepers on the record of `p` have just been woken.
  have hp : s.page ≠ p := by
    intro hp
    rw [hp, hr, Option.some.injEq] at hr'
    exact hk'.2 (hr' ▸ hstamp.symm)
  exact ⟨r', (record_releaseRecord hR hp).trans hr', hstamp⟩

theorem Attended.releaseAll {L : LockTable} (h : L.Attended) (t : TxnId) :
    (L.releaseAll t).1.Attended := by
  rw [releaseAll_eq]
  exact releaseRecords_induct (motive := Attended) (fun K R p hR hK => hK.releaseRecord hR) _ _
    (h.congr rfl rfl)

theorem Attended.release {L : LockTable} (h : L.Attended) (p : PageId) (t : TxnId) :
    (L.release p t).1.Attended :=
  release_induct (motive := Attended) (fun hL => hL.congr rfl rfl)
    (fun _ _ hR hK => hK.releaseRecord hR) h

theorem exists_holder {L : LockTable} (h : L.Recorded) {p : PageId} {r : LockRecord}
    (hr : L.records[p]? = some r) : ∃ t, t ∈ L.holders p := by
  rw [holders, lock_of_record hr]
  exact Lock.exists_holder (h p r hr).2

/-! ## What an operation leaves of the waits and the sleepers -/

/-- An attempt ends its call, and the transaction waits for nothing; or it puts the call to sleep under
a fresh ticket, and the transaction waits for the page. -/
theorem attempt_ends_or_sleeps (L : LockTable) (p : PageId) (t : TxnId) (m : Mode) :
    ((∀ k, (L.attempt p t m).2 ≠ .sleeps k) ∧
      (∀ u, (L.attempt p t m).1.waiting[u]? = if u = t then none else L.waiting[u]?) ∧
      (L.attempt p t m).1.sleepers = L.sleepers ∧
      (L.attempt p t m).1.nextTicket = L.nextTicket) ∨
    ((L.attempt p t m).2 = .sleeps L.nextTicket ∧
      (∀ u, (L.attempt p t m).1.waiting[u]? = if u = t then some p else L.waiting[u]?) ∧
      (L.attempt p t m).1.sleepers =
        L.sleepers.insert L.nextTicket ⟨t, p, m, (L.recordFor p).stamp⟩ ∧
      (L.attempt p t m).1.nextTicket = L.nextTicket + 1) := by
  rcases L.attempt_cases p t m with ⟨l, -, ha⟩ | ⟨-, -, ha⟩ | ⟨-, -, ha⟩
  · rw [ha]
    refine .inl ⟨by simp, ?_, rfl, rfl⟩
    intro u
    by_cases hu : u = t
    · simp [LockTable.grant, stopWaiting, hu]
    · simp [LockTable.grant, stopWaiting, ExtTreeMap.getElem?_erase, hu, Ne.symm hu]
  · rw [ha]
    refine .inl ⟨by simp, ?_, rfl, rfl⟩
    intro u
    by_cases hu : u = t
    · simp [waitFor, stopWaiting, hu]
    · simp [waitFor, stopWaiting, ExtTreeMap.getElem?_erase, ExtTreeMap.getElem?_insert, hu,
        Ne.symm hu]
  · rw [ha]
    refine .inr ⟨rfl, ?_, rfl, rfl⟩
    intro u
    by_cases hu : u = t
    · simp [putToSleep, waitFor, hu]
    · simp [putToSleep, waitFor, ExtTreeMap.getElem?_insert, hu, Ne.symm hu]

theorem waiting_releaseRecord {L R : LockTable} {p : PageId} {t : TxnId}
    (h : L.releaseRecord p t = .ok R) : R.waiting = L.waiting := by
  obtain ⟨r, l, -, -, rfl⟩ := releaseRecord_cases h
  rfl

theorem waiting_releaseAll (L : LockTable) (t : TxnId) :
    (L.releaseAll t).1.waiting = L.waiting.erase t := by
  rw [releaseAll_eq]
  exact releaseRecords_induct (motive := fun R => R.waiting = L.waiting.erase t)
    (fun K R p hR hK => (waiting_releaseRecord hR).trans hK) _ _ rfl

theorem waiting_release (L : LockTable) (p : PageId) (t : TxnId) :
    (L.release p t).1.waiting = L.waiting :=
  release_induct (motive := fun R => R.waiting = L.waiting) id
    (fun _ _ hR hK => (waiting_releaseRecord hR).trans hK) rfl

/-- `L'` has the tickets of `L`, some of them perhaps woken. -/
structure Wakes (L L' : LockTable) : Prop where
  sleepers : ∀ (k : Nat) (s : Sleeper), L'.sleepers[k]? = some s → L.sleepers[k]? = some s
  nextTicket : L'.nextTicket = L.nextTicket

theorem Wakes.refl (L : LockTable) : Wakes L L := ⟨fun _ _ h => h, rfl⟩

theorem Wakes.trans {L₁ L₂ L₃ : LockTable} (h : Wakes L₁ L₂) (h' : Wakes L₂ L₃) : Wakes L₁ L₃ :=
  ⟨fun k s hk => h.sleepers k s (h'.sleepers k s hk), h'.nextTicket.trans h.nextTicket⟩

theorem wakes_releaseRecord {L R : LockTable} {p : PageId} {t : TxnId}
    (h : L.releaseRecord p t = .ok R) : Wakes L R := by
  obtain ⟨r, l, -, -, rfl⟩ := releaseRecord_cases h
  refine ⟨?_, rfl⟩
  intro k s hk
  have hk' : L.sleepers[k]? = some s ∧ s.stamp ≠ r.stamp := by
    simpa [wake, Option.filter_eq_some_iff] using hk
  exact hk'.1

theorem wakes_releaseAll (L : LockTable) (t : TxnId) : Wakes L (L.releaseAll t).1 := by
  rw [releaseAll_eq]
  exact releaseRecords_induct (motive := Wakes L)
    (fun K R p hR hK => hK.trans (wakes_releaseRecord hR)) _ _ ⟨fun _ _ h => h, rfl⟩

theorem wakes_release (L : LockTable) (p : PageId) (t : TxnId) : Wakes L (L.release p t).1 :=
  release_induct (motive := Wakes L) (fun h => h.trans ⟨fun _ _ hk => hk, rfl⟩)
    (fun _ _ hR hK => hK.trans (wakes_releaseRecord hR)) (Wakes.refl L)

end LockTable

/-! ## The run relation -/

/-- A call that waits for a lock. It goes on waiting when it is woken, until it has asked again. -/
structure BlockedCall where
  ticket : Nat
  page : PageId
  mode : Mode

/-- A lock table and the calls that are blocked at it, one for each transaction at most. -/
structure Callers where
  table : LockTable
  blocked : TxnId → Option BlockedCall

namespace Callers

def start : Callers := ⟨LockTable.empty, fun _ => none⟩

/-- One attempt of `t` to lock a page: the first of a call, or one of a call that was woken. -/
def ask (w : Callers) (t : TxnId) (p : PageId) (m : Mode) : Callers :=
  match w.table.attempt p t m with
  | (L, .sleeps k) => ⟨L, Function.update w.blocked t (some ⟨k, p, m⟩)⟩
  | (L, _) => ⟨L, Function.update w.blocked t none⟩

/-- `t` is blocked and a release has woken it, and it has not asked again yet. -/
def Woken (w : Callers) (t : TxnId) : Prop :=
  ∃ c, w.blocked t = some c ∧ w.table.sleeps c.ticket = false

/-- The blocked call of `a` waits for a page that `b` holds. -/
def WaitsFor (w : Callers) (a b : TxnId) : Prop :=
  ∃ c, w.blocked a = some c ∧ b ∈ w.table.holders c.page

/-- What a transaction does next. Only one that is not blocked makes a new call, and only one that was
woken asks again. -/
inductive Step : Callers → Callers → Prop
  | acquire {w : Callers} {t : TxnId} (p : PageId) (m : Mode) :
      w.blocked t = none → Step w (w.ask t p m)
  | retry {w : Callers} {t : TxnId} {c : BlockedCall} :
      w.blocked t = some c → w.table.sleeps c.ticket = false → Step w (w.ask t c.page c.mode)
  | release {w : Callers} {t : TxnId} (p : PageId) :
      w.blocked t = none → Step w { w with table := (w.table.release p t).1 }
  | releaseAll {w : Callers} {t : TxnId} :
      w.blocked t = none → Step w { w with table := (w.table.releaseAll t).1 }

/-- The states that a run from a new table comes to. -/
inductive Reachable : Callers → Prop
  | start : Reachable start
  | step {w w' : Callers} : Reachable w → Step w w' → Reachable w'

/-! ## What every reachable state obeys -/

structure Inv (w : Callers) : Prop where
  consistent : w.table.Consistent
  attended : w.table.Attended
  /-- The waits of the table are the blocked calls. -/
  waiting : ∀ t, w.table.waiting[t]? = (w.blocked t).map BlockedCall.page
  tickets : ∀ t c, w.blocked t = some c → c.ticket < w.table.nextTicket
  asleep : ∀ t c s, w.blocked t = some c → w.table.sleepers[c.ticket]? = some s → s.page = c.page

theorem inv_start : Inv start where
  consistent := LockTable.consistent_empty
  attended k s hk := by simp [start, LockTable.empty] at hk
  waiting t := by simp [start, LockTable.empty]
  tickets t c hc := by simp [start] at hc
  asleep t c s hc := by simp [start] at hc

/-- After an attempt `t` is blocked under the ticket that the table gave it, or not at all. -/
theorem ask_cases (w : Callers) (t : TxnId) (p : PageId) (m : Mode) :
    (w.ask t p m).table = (w.table.attempt p t m).1 ∧
    ((∀ k, (w.table.attempt p t m).2 ≠ .sleeps k) ∧
        (w.ask t p m).blocked = Function.update w.blocked t none ∨
      ∃ k, (w.table.attempt p t m).2 = .sleeps k ∧
        (w.ask t p m).blocked = Function.update w.blocked t (some ⟨k, p, m⟩)) := by
  unfold ask
  rcases w.table.attempt p t m with ⟨L, a⟩
  cases a with
  | granted => exact ⟨rfl, .inl ⟨by simp, rfl⟩⟩
  | sleeps k => exact ⟨rfl, .inr ⟨k, rfl, rfl⟩⟩
  | deadlock => exact ⟨rfl, .inl ⟨by simp, rfl⟩⟩

theorem Inv.ask {w : Callers} (h : w.Inv) (t : TxnId) (p : PageId) (m : Mode) :
    (w.ask t p m).Inv := by
  obtain ⟨htab, hblocked⟩ := w.ask_cases t p m
  have hcons := h.consistent.attempt p t m
  have hatt := h.attended.attempt p t m
  rw [← htab] at hcons hatt
  rcases w.table.attempt_ends_or_sleeps p t m with
    ⟨hends, hwait, hsleep, hnext⟩ | ⟨hsleeps, hwait, hsleep, hnext⟩
  · have hb : (w.ask t p m).blocked = Function.update w.blocked t none := by
      rcases hblocked with ⟨-, hb⟩ | ⟨k, hk, -⟩
      · exact hb
      · exact absurd hk (hends k)
    refine ⟨hcons, hatt, ?_, ?_, ?_⟩
    · intro u
      rw [htab, hwait, hb]
      by_cases hu : u = t
      · simp [hu]
      · simp [hu, h.waiting u]
    · intro u c hc
      rw [htab, hnext]
      by_cases hu : u = t
      · simp [hb, hu] at hc
      · exact h.tickets u c (by simpa [hb, hu] using hc)
    · intro u c s hc hs
      rw [htab, hsleep] at hs
      by_cases hu : u = t
      · simp [hb, hu] at hc
      · exact h.asleep u c s (by simpa [hb, hu] using hc) hs
  · have hb : (w.ask t p m).blocked =
        Function.update w.blocked t (some ⟨w.table.nextTicket, p, m⟩) := by
      rcases hblocked with ⟨hends, -⟩ | ⟨k, hk, hb⟩
      · exact absurd hsleeps (hends _)
      · rw [hsleeps, Attempt.sleeps.injEq] at hk
        rw [hb, hk]
    refine ⟨hcons, hatt, ?_, ?_, ?_⟩
    · intro u
      rw [htab, hwait, hb]
      by_cases hu : u = t
      · simp [hu]
      · simp [hu, h.waiting u]
    · intro u c hc
      rw [htab, hnext]
      by_cases hu : u = t
      · obtain rfl : _ = c := by simpa [hb, hu] using hc
        exact Nat.lt_succ_self _
      · exact Nat.lt_succ_of_lt (h.tickets u c (by simpa [hb, hu] using hc))
    · intro u c s hc hs
      rw [htab, hsleep, ExtTreeMap.getElem?_insert] at hs
      simp only [Std.compare_eq_iff_eq] at hs
      by_cases hu : u = t
      · obtain rfl : _ = c := by simpa [hb, hu] using hc
        obtain rfl : _ = s := by simpa using hs
        rfl
      · have hc' : w.blocked u = some c := by simpa [hb, hu] using hc
        -- The fresh ticket is not the one of `u`.
        have hne : w.table.nextTicket ≠ c.ticket := Nat.ne_of_gt (h.tickets u c hc')
        rw [if_neg hne] at hs
        exact h.asleep u c s hc' hs

theorem Inv.wake {w : Callers} (h : w.Inv) {L : LockTable} (hcons : L.Consistent)
    (hatt : L.Attended) (hwait : ∀ t : TxnId, L.waiting[t]? = w.table.waiting[t]?)
    (hwakes : w.table.Wakes L) : Inv { w with table := L } where
  consistent := hcons
  attended := hatt
  waiting t := (hwait t).trans (h.waiting t)
  tickets t c hc := hwakes.nextTicket ▸ h.tickets t c hc
  asleep t c s hc hs := h.asleep t c s hc (hwakes.sleepers _ _ hs)

theorem Inv.step {w w' : Callers} (h : w.Inv) (hstep : Step w w') : w'.Inv := by
  cases hstep with
  | acquire p m hidle => exact h.ask _ p m
  | retry hc hwoken => exact h.ask _ _ _
  | @release t p hidle =>
    refine h.wake (h.consistent.release p t) (h.attended.release p t) ?_
      (LockTable.wakes_release _ p t)
    intro u
    rw [LockTable.waiting_release]
  | @releaseAll t hidle =>
    refine h.wake (h.consistent.releaseAll t) (h.attended.releaseAll t) ?_
      (LockTable.wakes_releaseAll _ t)
    intro u
    rw [LockTable.waiting_releaseAll, ExtTreeMap.getElem?_erase]
    -- A transaction that is not blocked waits for nothing.
    split
    · rename_i hu
      rw [Std.compare_eq_iff_eq] at hu
      rw [← hu, h.waiting, hidle]
      rfl
    · rfl

theorem Reachable.inv {w : Callers} (h : Reachable w) : w.Inv := by
  induction h with
  | start => exact inv_start
  | step _ hstep ih => exact ih.step hstep

/-- **The page that a sleeping call waits for has a holder.** -/
theorem Inv.exists_holder {w : Callers} (h : w.Inv) {t : TxnId} {c : BlockedCall}
    (hc : w.blocked t = some c) (hs : w.table.sleeps c.ticket = true) :
    ∃ u, u ∈ w.table.holders c.page := by
  have hmem : c.ticket ∈ w.table.sleepers := ExtTreeMap.contains_iff_mem.1 hs
  obtain ⟨s, hs'⟩ := Option.isSome_iff_exists.1 (ExtTreeMap.mem_iff_isSome_getElem?.1 hmem)
  obtain ⟨r, hr, -⟩ := h.attended _ s hs'
  rw [h.asleep t c s hc hs'] at hr
  exact LockTable.exists_holder h.consistent.recorded hr

end Callers

end PageEngine
