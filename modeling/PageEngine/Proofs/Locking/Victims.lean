import Mathlib
import PageEngine.Proofs.Locking.Deadlock
import PageEngine.Proofs.Locking.Wakeups

/-!
# `Proofs/Locking/Victims.lean` — whose request ends in a deadlock

The table remembers of a blocked transaction which page it waits for, and not in which mode. In the
wait-for graph it has an edge to everybody who holds the page. For a call that sleeps this is exact: it
was refused, and it would be refused now, so each holder of the page is in its way. A call that was woken
has not asked again yet. Meanwhile a reader may have taken the page which it could share:

> **a request ends in a deadlock exactly when** its transaction shares the page with others and asks to
> own it, or its transaction is on a circle of distinct transactions in which each has a request that
> conflicts with the lock of the next (`Callers.Conflicts`), or was woken and has not yet asked again to
> share the page with the next (`Callers.Overtaken`).

While no woken reader has been overtaken by another reader, only the conflicts are left. The other edges
are not harmless: `Callers.overtakenReader` is a run in which a scan is refused although nothing but a
reader that was woken stands behind the page it asks for.
-/

set_option autoImplicit false

namespace PageEngine

open Std Relation

/-! ## Simple circles -/

section Circles

variable {α : Type*} {R R' : α → α → Prop} {a b t : α}

/-- A way along `R` from `t` through other elements, all distinct, back to `t`. -/
def Circle (R : α → α → Prop) (t : α) : Prop :=
  ∃ ts : List α, ts ≠ [] ∧ (t :: ts).Nodup ∧ List.IsChain R (t :: (ts ++ [t]))

theorem Circle.mono (h : Circle R t) (hsub : ∀ a b, R a b → R' a b) : Circle R' t := by
  obtain ⟨ts, hne, hnodup, hchain⟩ := h
  exact ⟨ts, hne, hnodup, hchain.imp hsub⟩

theorem Circle.exists_next (h : Circle R t) : ∃ c d, R t c ∧ R c d := by
  obtain ⟨ts, hne, -, hchain⟩ := h
  obtain ⟨c, rest, rfl⟩ := List.exists_cons_of_ne_nil hne
  rw [List.cons_append, List.isChain_cons_cons] at hchain
  obtain ⟨d, rest', hd⟩ := List.exists_cons_of_ne_nil (l := rest ++ [t]) (by simp)
  rw [hd, List.isChain_cons_cons] at hchain
  exact ⟨c, d, hchain.1, hchain.2.1⟩

/-- A way can be cut short until it meets nothing twice. -/
theorem exists_simple_path (h : ReflTransGen R a b) :
    ∃ l, List.IsChain (fun x y => x ≠ y ∧ R x y) (a :: l) ∧ (a :: l).Nodup ∧
      (a :: l).getLast (List.cons_ne_nil a l) = b := by
  induction h using ReflTransGen.head_induction_on with
  | refl => exact ⟨[], by simp⟩
  | @head a c hac _ ih =>
    obtain ⟨l, hchain, hnodup, hlast⟩ := ih
    by_cases ha : a ∈ c :: l
    · -- The way comes back to `a`: what it did in between is dropped.
      obtain ⟨l₁, l₂, heq⟩ := List.append_of_mem ha
      refine ⟨l₂, ?_, ?_, ?_⟩
      · rw [heq] at hchain
        exact hchain.right_of_append
      · rw [heq] at hnodup
        exact hnodup.of_append_right
      · simpa [heq] using hlast
    · have hne : a ≠ c := fun heq => ha (heq ▸ List.mem_cons_self)
      exact ⟨c :: l, .cons_cons ⟨hne, hac⟩ hchain, List.nodup_cons.2 ⟨ha, hnodup⟩,
        by simpa using hlast⟩

theorem Circle.transGen (h : Circle R t) : TransGen R t t := by
  obtain ⟨ts, hne, -, hchain⟩ := h
  obtain ⟨c, rest, rfl⟩ := List.exists_cons_of_ne_nil hne
  rw [List.cons_append, List.isChain_cons_cons] at hchain
  refine TransGen.head' hchain.1 ?_
  exact List.relationReflTransGen_of_exists_isChain_cons (rest ++ [t]) hchain.2 (by simp)

/-- **Who can be reached from itself is next to itself or on a simple circle.** -/
theorem transGen_self_iff : TransGen R t t ↔ R t t ∨ Circle (fun x y => x ≠ y ∧ R x y) t := by
  constructor
  · intro h
    obtain ⟨c, htc, hct⟩ := TransGen.head'_iff.1 h
    obtain ⟨l, hchain, hnodup, hlast⟩ := exists_simple_path hct
    by_cases hc : t = c
    · exact .inl (hc ▸ htc)
    have hsplit : (c :: l).dropLast ++ [t] = c :: l := by
      rw [← hlast]
      exact List.dropLast_concat_getLast (List.cons_ne_nil c l)
    refine .inr ⟨(c :: l).dropLast, ?_, ?_, ?_⟩
    · intro hnil
      rw [hnil] at hsplit
      exact hc (List.cons.inj hsplit).1
    · rw [← hsplit] at hnodup
      exact (List.perm_append_singleton t _).nodup_iff.1 hnodup
    · rw [hsplit]
      exact .cons_cons ⟨hc, htc⟩ hchain
  · rintro (h | h)
    · exact .single h
    · exact (h.mono fun _ _ hab => hab.2).transGen

end Circles

/-! ## What a sleeping call waits for -/

namespace Callers

theorem Reachable.table {w : Callers} (h : Reachable w) : LockTable.Reachable w.table := by
  induction h with
  | start => exact .empty
  | @step w w' _ hstep ih =>
    cases hstep with
    | acquire p m _ =>
      rw [(w.ask_cases _ p m).1]
      exact ih.attempt p _ m
    | @retry t c _ _ =>
      rw [(w.ask_cases t c.page c.mode).1]
      exact ih.attempt c.page t c.mode
    | release p _ => exact ih.release p _
    | releaseAll _ => exact ih.releaseAll _

/-- The tickets of the blocked calls are those of their sleepers. -/
def Ticketed (w : Callers) : Prop :=
  ∀ t c s, w.blocked t = some c → w.table.sleepers[c.ticket]? = some s →
    s.txn = t ∧ s.page = c.page ∧ s.mode = c.mode

theorem Ticketed.ask {w : Callers} (h : w.Ticketed) (hinv : w.Inv) (t : TxnId) (p : PageId) (m : Mode) :
    (w.ask t p m).Ticketed := by
  intro u c s hc hs
  obtain ⟨htab, hblocked⟩ := w.ask_cases t p m
  rw [htab] at hs
  by_cases hu : u = t
  · subst hu
    rcases hblocked with ⟨-, hb⟩ | ⟨k, hk, hb⟩
    · simp [hb] at hc
    · obtain rfl : (⟨k, p, m⟩ : BlockedCall) = c := by simpa [hb] using hc
      rcases w.table.attempt_ends_or_sleeps p u m with ⟨hends, -⟩ | ⟨hsleeps, -, hsleep, -⟩
      · exact absurd hk (hends k)
      · rw [hsleeps, Attempt.sleeps.injEq] at hk
        subst hk
        obtain rfl : _ = s := by simpa [hsleep] using hs
        exact ⟨rfl, rfl, rfl⟩
  · have hc' : w.blocked u = some c := by
      rcases hblocked with ⟨-, hb⟩ | ⟨k, -, hb⟩ <;> simpa [hb, hu] using hc
    rcases LockTable.sleeper_attempt hs with hold | ⟨hnew, -⟩
    · exact h u c s hc' hold
    · exact absurd hnew (Nat.ne_of_lt (hinv.tickets u c hc'))

theorem Reachable.ticketed {w : Callers} (h : Reachable w) : w.Ticketed := by
  induction h with
  | start =>
    intro t c s hc
    cases hc
  | @step w w' hreach hstep ih =>
    cases hstep with
    | acquire p m _ => exact ih.ask hreach.inv _ p m
    | retry _ _ => exact ih.ask hreach.inv _ _ _
    | @release t p _ =>
      intro u c s hc hs
      exact ih u c s hc ((LockTable.wakes_release w.table p t).sleepers _ _ hs)
    | @releaseAll t _ =>
      intro u c s hc hs
      exact ih u c s hc ((LockTable.wakes_releaseAll w.table t).sleepers _ _ hs)

/-- **A call that sleeps would be refused now.** -/
theorem Reachable.refuses {w : Callers} (h : Reachable w) {t : TxnId} {c : BlockedCall}
    (hc : w.blocked t = some c) (hs : w.table.sleeps c.ticket = true) :
    w.table.Refuses c.page t c.mode := by
  have hmem : c.ticket ∈ w.table.sleepers := ExtTreeMap.contains_iff_mem.1 hs
  obtain ⟨s, hs'⟩ := Option.isSome_iff_exists.1 (ExtTreeMap.mem_iff_isSome_getElem?.1 hmem)
  obtain ⟨rfl, hpage, hmode⟩ := h.ticketed t c s hc hs'
  rw [← hpage, ← hmode]
  exact h.table.inv.2.refused _ s hs'

/-! ## Conflicts -/

/-- The request that `a` has pending while `t` asks for `p` in mode `m`. -/
def pending (w : Callers) (t : TxnId) (p : PageId) (m : Mode) (a : TxnId) : Option (PageId × Mode) :=
  if a = t then some (p, m) else (w.blocked a).map fun c => (c.page, c.mode)

/-- While `t` asks for `p` in mode `m`, the pending request of `a` is incompatible with the lock that
another transaction `b` holds on the page of that request. -/
def Conflicts (w : Callers) (t : TxnId) (p : PageId) (m : Mode) (a b : TxnId) : Prop :=
  a ≠ b ∧ ∃ q n o, w.pending t p m a = some (q, n) ∧ w.table.modeOf q b = some o ∧
    n.compatible o = false

/-- `a` was woken and has not yet asked again to share a page, and `b` shares that page. -/
def Overtaken (w : Callers) (a b : TxnId) : Prop :=
  ∃ c, w.blocked a = some c ∧ w.table.sleeps c.ticket = false ∧ c.mode = .shared ∧
    w.table.modeOf c.page b = some .shared

/-- `t` shares the page with others and asks to own it. -/
def BarredUpgrade (w : Callers) (t : TxnId) (p : PageId) (m : Mode) : Prop :=
  m = .exclusive ∧ w.table.modeOf p t = some .shared ∧ ∃ u, u ≠ t ∧ w.table.modeOf p u = some .shared

end Callers

namespace LockTable

/-- A refused request to share a page conflicts with every holder. -/
theorem Refuses.incompatible {L : LockTable} {p : PageId} {t u : TxnId} {m n : Mode}
    (h : L.Refuses p t m) (hu : L.modeOf p u = some n) : m.compatible n = false := by
  obtain ⟨v, o, -, hv, hm⟩ := refuses_iff.1 h
  cases m with
  | exclusive => rfl
  | shared =>
    rw [hm.resolve_left (by simp)] at hv
    -- The owner is the only holder.
    obtain rfl : u = v := eq_of_modeOf_exclusive hv (by simp [hu])
    obtain rfl : n = .exclusive := Option.some.inj (hu.symm.trans hv)
    rfl

theorem refuses_of_incompatible {L : LockTable} {p : PageId} {t u : TxnId} {m n : Mode} (hne : u ≠ t)
    (hu : L.modeOf p u = some n) (h : m.compatible n = false) : L.Refuses p t m := by
  refine refuses_iff.2 ⟨u, n, hne, hu, ?_⟩
  cases m <;> cases n <;> simp [Mode.compatible] at h ⊢

theorem waitsFor_waitFor {L : LockTable} {t : TxnId} {p : PageId} {a b : TxnId} :
    (L.waitFor t p).WaitsFor a b ↔ if a = t then b ∈ L.holders p else L.WaitsFor a b := by
  have hwait : (L.waitFor t p).waiting[a]? = if a = t then some p else L.waiting[a]? := by
    simp only [waitFor, ExtTreeMap.getElem?_insert, Std.compare_eq_iff_eq, eq_comm (a := t)]
  unfold WaitsFor
  rw [hwait]
  split
  · simp [holders, lock, waitFor]
  · rfl

/-- An attempt ends in a deadlock when the request is refused and waiting would close a circle. -/
theorem attempt_deadlock_iff {L : LockTable} {p : PageId} {t : TxnId} {m : Mode} :
    (L.attempt p t m).2 = .deadlock ↔ L.Refuses p t m ∧ TransGen (L.waitFor t p).WaitsFor t t := by
  rw [← hasCycleFrom_iff]
  rcases L.attempt_cases p t m with ⟨l, hl, ha⟩ | ⟨hl, hc, ha⟩ | ⟨hl, hc, ha⟩
  · simp [ha, Refuses, hl]
  · simp [ha, Refuses, hl, hc]
  · simp [ha, Refuses, hl, hc, putToSleep]

end LockTable

namespace Callers

variable {w : Callers} {t : TxnId} {p : PageId} {m : Mode}

/-- The edges of the graph that is searched, between different transactions. -/
theorem Reachable.waits_iff (h : Reachable w) (hrefused : w.table.Refuses p t m) {a b : TxnId} :
    a ≠ b ∧ (w.table.waitFor t p).WaitsFor a b ↔
      w.Conflicts t p m a b ∨ a ≠ t ∧ a ≠ b ∧ w.Overtaken a b := by
  rw [LockTable.waitsFor_waitFor]
  by_cases ha : a = t
  · subst ha
    simp only [if_pos, LockTable.mem_holders, Option.isSome_iff_exists, Conflicts, pending, ne_eq,
      not_true_eq_false, false_and, or_false]
    constructor
    · rintro ⟨hne, o, ho⟩
      exact ⟨hne, p, m, o, rfl, ho, hrefused.incompatible ho⟩
    · rintro ⟨hne, q, n, o, hq, ho, -⟩
      obtain ⟨rfl, rfl⟩ := Prod.mk.inj (Option.some.inj hq)
      exact ⟨hne, o, ho⟩
  · rw [if_neg ha, ← h.inv.waitsFor_iff]
    constructor
    · rintro ⟨hne, c, hc, hb⟩
      obtain ⟨o, ho⟩ := Option.isSome_iff_exists.1 (LockTable.mem_holders.1 hb)
      cases hcompat : c.mode.compatible o with
      | false => exact .inl ⟨hne, c.page, c.mode, o, by simp [pending, ha, hc], ho, hcompat⟩
      | true =>
        -- Two modes that go together are both shared, and such a call does not sleep.
        obtain ⟨hm, rfl⟩ : c.mode = .shared ∧ o = .shared := by
          revert hcompat
          cases c.mode <;> cases o <;> simp [Mode.compatible]
        refine .inr ⟨ha, hne, c, hc, ?_, hm, ho⟩
        rw [Bool.eq_false_iff]
        intro hs
        rw [(h.refuses hc hs).incompatible ho] at hcompat
        cases hcompat
    · rintro (⟨hne, q, n, o, hq, ho, -⟩ | ⟨-, hne, c, hc, -, -, ho⟩)
      · obtain ⟨c, hc, heq⟩ : ∃ c, w.blocked a = some c ∧ (c.page, c.mode) = (q, n) := by
          simpa [pending, ha] using hq
        obtain ⟨rfl, rfl⟩ := Prod.mk.inj heq
        exact ⟨hne, c, hc, LockTable.mem_holders.2 (by simp [ho])⟩
      · exact ⟨hne, c, hc, LockTable.mem_holders.2 (by simp [ho])⟩

/-- Who is refused and holds the page itself shares it and asks to own it. -/
theorem barredUpgrade_iff :
    w.BarredUpgrade t p m ↔ w.table.Refuses p t m ∧ (w.table.waitFor t p).WaitsFor t t := by
  rw [LockTable.waitsFor_waitFor, if_pos rfl, LockTable.mem_holders]
  constructor
  · rintro ⟨rfl, ht, u, hu, hmode⟩
    exact ⟨LockTable.refuses_of_incompatible hu hmode rfl, by simp [ht]⟩
  · rintro ⟨hrefused, hheld⟩
    obtain ⟨o, ho⟩ := Option.isSome_iff_exists.1 hheld
    obtain ⟨u, n, hu, hn, -⟩ := LockTable.refuses_iff.1 hrefused
    -- Two transactions hold the page, so neither does so exclusively.
    obtain rfl : o = .shared := by
      cases o with
      | shared => rfl
      | exclusive => exact absurd (LockTable.eq_of_modeOf_exclusive ho (by simp [hn])) hu
    obtain rfl : n = .shared := by
      cases n with
      | shared => rfl
      | exclusive => exact absurd (LockTable.eq_of_modeOf_exclusive hn (by simp [ho])) (Ne.symm hu)
    refine ⟨?_, ho, u, hu, hn⟩
    have hincompat := hrefused.incompatible ho
    cases m with
    | shared => simp [Mode.compatible] at hincompat
    | exclusive => rfl

/-- The first edge of a circle is a conflict of the request that closes it. -/
theorem refuses_of_circle
    (h : Circle (fun a b => w.Conflicts t p m a b ∨ a ≠ t ∧ a ≠ b ∧ w.Overtaken a b) t) :
    w.table.Refuses p t m := by
  obtain ⟨ts, hne, -, hchain⟩ := h
  obtain ⟨c, rest, rfl⟩ := List.exists_cons_of_ne_nil hne
  rw [List.cons_append, List.isChain_cons_cons] at hchain
  obtain ⟨hne, q, n, o, hq, ho, hincompat⟩ := hchain.1.resolve_right (by simp)
  obtain ⟨rfl, rfl⟩ : p = q ∧ m = n := by simpa [pending] using hq
  exact LockTable.refuses_of_incompatible (Ne.symm hne) ho hincompat

/-- **When a request ends in a deadlock.** In every reachable state it does so exactly when its
transaction shares the page with others and asks to own it, or is on a circle of distinct transactions
each of which has a pending request in conflict with the lock of the next or was overtaken by the next.
When no transaction but the one that asks was overtaken, there is a circle of conflicts alone. -/
theorem deadlock_iff (h : Reachable w) (t : TxnId) (p : PageId) (m : Mode) :
    ((w.table.attempt p t m).2 = .deadlock ↔
      w.BarredUpgrade t p m ∨
        Circle (fun a b => w.Conflicts t p m a b ∨ a ≠ t ∧ a ≠ b ∧ w.Overtaken a b) t) ∧
    ((∀ a b, a ≠ t → a ≠ b → ¬w.Overtaken a b) →
      ((w.table.attempt p t m).2 = .deadlock ↔
        w.BarredUpgrade t p m ∨ Circle (w.Conflicts t p m) t)) := by
  have hgeneral : (w.table.attempt p t m).2 = .deadlock ↔
      w.BarredUpgrade t p m ∨
        Circle (fun a b => w.Conflicts t p m a b ∨ a ≠ t ∧ a ≠ b ∧ w.Overtaken a b) t := by
    rw [LockTable.attempt_deadlock_iff, transGen_self_iff, barredUpgrade_iff]
    constructor
    · rintro ⟨hrefused, hself | hcircle⟩
      · exact .inl ⟨hrefused, hself⟩
      · exact .inr (hcircle.mono fun a b => (h.waits_iff hrefused).1)
    · rintro (⟨hrefused, hself⟩ | hcircle)
      · exact ⟨hrefused, .inl hself⟩
      · have hrefused := refuses_of_circle hcircle
        exact ⟨hrefused, .inr (hcircle.mono fun a b => (h.waits_iff hrefused).2)⟩
  refine ⟨hgeneral, fun hnone => hgeneral.trans (or_congr_right ?_)⟩
  constructor
  · intro hcircle
    refine hcircle.mono fun a b hab => hab.resolve_right ?_
    rintro ⟨ha, hne, hover⟩
    exact hnone a b ha hne hover
  · intro hcircle
    exact hcircle.mono fun a b => .inl

theorem Inv.mem_waiting (h : w.Inv) {c : BlockedCall} (hc : w.blocked t = some c) :
    t ∈ w.table.waiting.keys := by
  rw [ExtTreeMap.mem_keys, ExtTreeMap.mem_iff_isSome_getElem?, h.waiting, hc]
  rfl

/-- Two transactions own a page each; the second waits for the page of the first, and the first asks for
that of the second. -/
def crossedOwners : Callers :=
  ((start.ask ⟨1⟩ ⟨⟨1⟩, 0⟩ .exclusive).ask ⟨2⟩ ⟨⟨1⟩, 1⟩ .exclusive).ask ⟨2⟩ ⟨⟨1⟩, 0⟩ .shared

theorem reachable_crossedOwners : Reachable crossedOwners :=
  .step (.step (.step .start (.acquire _ _ rfl)) (.acquire _ _ (by cbv))) (.acquire _ _ (by cbv))

/-- There nobody was overtaken, and the circle is one of two conflicts. -/
theorem deadlock_iff_crossedOwners :
    (∀ a b, a ≠ ⟨1⟩ → a ≠ b → ¬crossedOwners.Overtaken a b) ∧
    (crossedOwners.table.attempt ⟨⟨1⟩, 1⟩ ⟨1⟩ .shared).2 = .deadlock ∧
    (crossedOwners.BarredUpgrade ⟨1⟩ ⟨⟨1⟩, 1⟩ .shared ∨
      Circle (crossedOwners.Conflicts ⟨1⟩ ⟨⟨1⟩, 1⟩ .shared) ⟨1⟩) := by
  have hnone : ∀ a b, a ≠ ⟨1⟩ → a ≠ b → ¬crossedOwners.Overtaken a b := by
    rintro a b - - ⟨c, hc, hwoken, -⟩
    have hkeys : crossedOwners.table.waiting.keys = [⟨2⟩] := by cbv
    have ha := reachable_crossedOwners.inv.mem_waiting hc
    obtain rfl : a = ⟨2⟩ := by simpa [hkeys] using ha
    have hblocked : crossedOwners.blocked ⟨2⟩ = some ⟨0, ⟨⟨1⟩, 0⟩, .shared⟩ := by cbv
    obtain rfl : (⟨0, ⟨⟨1⟩, 0⟩, .shared⟩ : BlockedCall) = c := Option.some.inj (hblocked.symm.trans hc)
    have hasleep : crossedOwners.table.sleeps 0 = true := by cbv
    exact absurd (hasleep.symm.trans hwoken) (by simp)
  have hdead : (crossedOwners.table.attempt ⟨⟨1⟩, 1⟩ ⟨1⟩ .shared).2 = .deadlock := by cbv
  exact ⟨hnone, hdead, ((deadlock_iff reachable_crossedOwners ⟨1⟩ ⟨⟨1⟩, 1⟩ .shared).2 hnone).1 hdead⟩

/-- A reader and an owner of another page wait to share the page of a third transaction. It lets go, both
are woken, and the reader is the first to ask again. -/
def overtakenReader : Callers :=
  let w := (((start.ask ⟨1⟩ ⟨⟨1⟩, 0⟩ .exclusive).ask ⟨2⟩ ⟨⟨1⟩, 1⟩ .exclusive).ask ⟨3⟩ ⟨⟨1⟩, 0⟩
    .shared).ask ⟨2⟩ ⟨⟨1⟩, 0⟩ .shared
  { w with table := (w.table.releaseAll ⟨1⟩).1 }.ask ⟨3⟩ ⟨⟨1⟩, 0⟩ .shared

theorem reachable_overtakenReader : Reachable overtakenReader := by
  refine .step (.step (.step (.step (.step (.step .start (.acquire (t := ⟨1⟩) ⟨⟨1⟩, 0⟩ .exclusive rfl))
    (.acquire (t := ⟨2⟩) ⟨⟨1⟩, 1⟩ .exclusive (by cbv))) (.acquire (t := ⟨3⟩) ⟨⟨1⟩, 0⟩ .shared (by cbv)))
    (.acquire (t := ⟨2⟩) ⟨⟨1⟩, 0⟩ .shared (by cbv))) (.releaseAll (t := ⟨1⟩) (by cbv)))
    (.retry (t := ⟨3⟩) (c := ⟨0, ⟨⟨1⟩, 0⟩, .shared⟩) (by cbv) (by cbv))

/-- When the reader goes on to the other page it is refused for a deadlock, although it asks to own
nothing and is on no circle of conflicts: the owner of that page waits for nobody but could share the
page that the reader shares. -/
theorem overtaken_reader_refused :
    Reachable overtakenReader ∧
    (overtakenReader.table.attempt ⟨⟨1⟩, 1⟩ ⟨3⟩ .shared).2 = .deadlock ∧
    ¬overtakenReader.BarredUpgrade ⟨3⟩ ⟨⟨1⟩, 1⟩ .shared ∧
    ¬Circle (overtakenReader.Conflicts ⟨3⟩ ⟨⟨1⟩, 1⟩ .shared) ⟨3⟩ := by
  refine ⟨reachable_overtakenReader, by cbv, ?_, ?_⟩
  · rintro ⟨hm, -⟩
    cases hm
  · intro hcircle
    obtain ⟨c, d, ⟨-, q, n, o, hq, ho, -⟩, -, q', n', o', hq', ho', hincompat⟩ := hcircle.exists_next
    -- The first edge leads to the owner of the page that the reader asks for.
    obtain ⟨rfl, -⟩ : (⟨⟨1⟩, 1⟩ : PageId) = q ∧ Mode.shared = n := by simpa [pending] using hq
    have howner : overtakenReader.table.modeOf ⟨⟨1⟩, 1⟩ ⟨2⟩ = some .exclusive := by cbv
    obtain rfl : c = ⟨2⟩ := LockTable.eq_of_modeOf_exclusive howner (by simp [ho])
    -- It asks to share a page, which is shared as well.
    have hpending : overtakenReader.pending ⟨3⟩ ⟨⟨1⟩, 1⟩ .shared ⟨2⟩ = some (⟨⟨1⟩, 0⟩, .shared) := by cbv
    obtain ⟨rfl, rfl⟩ := Prod.mk.inj (Option.some.inj (hpending.symm.trans hq'))
    obtain rfl : o' = .exclusive := by
      cases o' with
      | shared => cases hincompat
      | exclusive => rfl
    have hshared : overtakenReader.table.modeOf ⟨⟨1⟩, 0⟩ ⟨3⟩ = some .shared := by cbv
    obtain rfl : ⟨3⟩ = d := LockTable.eq_of_modeOf_exclusive ho' (by simp [hshared])
    exact absurd (hshared.symm.trans ho') (by simp)

end Callers

end PageEngine
