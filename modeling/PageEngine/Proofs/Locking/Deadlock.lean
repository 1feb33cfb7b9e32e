import Mathlib
import PageEngine.Proofs.Locking.Callers

/-!
# `Proofs/Locking/Deadlock.lean` — nobody waits in a circle

The search for a cycle starts at the transaction that asks, and it is made only when the transaction
would fall asleep. New waits come up at other moments too: whoever is granted a page is from then on
waited for by everybody who waits for that page, whether or not it was woken. That this is enough:

> **in every reachable state the waiting relation has no cycle**, so following it from a blocked
> transaction always ends, at one that is not blocked or that was woken and has to ask again.

Every operation changes the relation at one transaction only (`Acyclic.of_off`). A refused request adds
edges that leave the requester, and the search has found no cycle through it. A grant adds edges that
lead to the requester, and then it waits for nobody. A release adds none.
-/

set_option autoImplicit false

namespace PageEngine

open Std Relation

namespace LockTable

/-- The waits of an attempt, seen from everybody but the requester, are those from before. -/
theorem waitsFor_attempt_off {L : LockTable} {p : PageId} {t : TxnId} {m : Mode} {a b : TxnId}
    (ha : a ≠ t) (hb : b ≠ t) (h : (L.attempt p t m).1.WaitsFor a b) : L.WaitsFor a b := by
  obtain ⟨q, hq, hhold⟩ := h
  refine ⟨q, ?_, ?_⟩
  · rcases L.attempt_ends_or_sleeps p t m with ⟨-, hwait, -⟩ | ⟨-, hwait, -⟩
    · rwa [hwait, if_neg ha] at hq
    · rwa [hwait, if_neg ha] at hq
  · rw [mem_holders, modeOf_attempt, if_neg (by simp [hb])] at hhold
    exact mem_holders.2 hhold

/-- **An attempt closes no cycle of waiting transactions**, whatever comes of it. -/
theorem acyclic_attempt {L : LockTable} (h : Acyclic L.WaitsFor) (p : PageId) (t : TxnId) (m : Mode) :
    Acyclic (L.attempt p t m).1.WaitsFor := by
  refine h.of_off (t := t) (fun a b => waitsFor_attempt_off) ?_
  rcases L.attempt_cases p t m with ⟨l, -, ha⟩ | ⟨-, -, ha⟩ | ⟨-, hnone, ha⟩
  · rw [ha]
    apply not_transGen_of_sink
    intro b hb
    obtain ⟨q, hq, -⟩ := hb
    simp [grant, stopWaiting] at hq
  · rw [ha]
    apply not_transGen_of_sink
    intro b hb
    obtain ⟨q, hq, -⟩ := hb
    simp [stopWaiting] at hq
  · rw [ha]
    intro hcycle
    have hfound : (L.waitFor t p).waitGraph.hasCycleFrom t = true := hasCycleFrom_iff.2 hcycle
    rw [hnone] at hfound
    cases hfound

theorem acyclic_release {L : LockTable} (hL : L.Consistent) (h : Acyclic L.WaitsFor) (p : PageId)
    (t : TxnId) : Acyclic (L.release p t).1.WaitsFor := by
  apply h.mono
  intro a b hab
  obtain ⟨q, hq, hhold⟩ := hab
  rw [waiting_release] at hq
  rw [mem_holders, modeOf_release hL] at hhold
  split at hhold
  · cases hhold
  · exact ⟨q, hq, mem_holders.2 hhold⟩

theorem acyclic_releaseAll {L : LockTable} (hL : L.Consistent) (h : Acyclic L.WaitsFor) (t : TxnId) :
    Acyclic (L.releaseAll t).1.WaitsFor := by
  apply h.mono
  intro a b hab
  obtain ⟨q, hq, hhold⟩ := hab
  rw [waiting_releaseAll, ExtTreeMap.getElem?_erase] at hq
  split at hq
  · cases hq
  rw [mem_holders, (releaseAll_spec hL t).2] at hhold
  split at hhold
  · cases hhold
  · exact ⟨q, hq, mem_holders.2 hhold⟩

theorem finite_waiting (L : LockTable) : {t : TxnId | (L.waiting[t]?).isSome}.Finite := by
  apply (List.finite_toSet L.waiting.keys).subset
  intro t ht
  exact ExtTreeMap.mem_keys.2 (ExtTreeMap.mem_iff_isSome_getElem?.2 ht)

end LockTable

namespace Callers

theorem Reachable.acyclic_table {w : Callers} (h : Reachable w) : Acyclic w.table.WaitsFor := by
  induction h with
  | start =>
    intro t
    apply not_transGen_of_sink
    intro b hb
    obtain ⟨p, hp, -⟩ := hb
    exact absurd hp (by simp [LockTable.empty, Callers.start])
  | @step w w' hreach hstep ih =>
    have hcons := hreach.inv.consistent
    cases hstep with
    | @acquire t p m hidle =>
      rw [(w.ask_cases t p m).1]
      exact LockTable.acyclic_attempt ih p t m
    | @retry t c hc hwoken =>
      rw [(w.ask_cases t c.page c.mode).1]
      exact LockTable.acyclic_attempt ih c.page t c.mode
    | @release t p hidle => exact LockTable.acyclic_release hcons ih p t
    | @releaseAll t hidle => exact LockTable.acyclic_releaseAll hcons ih t

theorem Inv.waitsFor_iff {w : Callers} (h : w.Inv) {a b : TxnId} :
    w.WaitsFor a b ↔ w.table.WaitsFor a b := by
  constructor
  · rintro ⟨c, hc, hb⟩
    exact ⟨c.page, by rw [h.waiting, hc]; rfl, hb⟩
  · rintro ⟨p, hp, hb⟩
    rw [h.waiting] at hp
    obtain ⟨c, hc, rfl⟩ := Option.map_eq_some_iff.1 hp
    exact ⟨c, hc, hb⟩

/-- A blocked transaction that waits for nobody was woken. -/
theorem Inv.free_or_woken {w : Callers} (h : w.Inv) {t : TxnId} (hend : ∀ u, ¬w.WaitsFor t u) :
    w.blocked t = none ∨ w.Woken t := by
  cases hc : w.blocked t with
  | none => exact .inl rfl
  | some c =>
    refine .inr ⟨c, hc, ?_⟩
    cases hs : w.table.sleeps c.ticket with
    | false => rfl
    | true =>
      obtain ⟨u, hu⟩ := h.exists_holder hc hs
      exact absurd ⟨c, hc, hu⟩ (hend u)

/-- **No deadlock goes undetected.** In every reachable state nobody waits in a circle, not even for
itself, and following the waits from a blocked transaction always leads to one that is not blocked or
that was woken and has to ask again. -/
theorem no_undetected_deadlock {w : Callers} (h : Reachable w) :
    Acyclic w.WaitsFor ∧
    ∀ t, (w.blocked t).isSome →
      AlwaysReaches w.WaitsFor (fun u => w.blocked u = none ∨ w.Woken u) t := by
  have hinv := h.inv
  have hacyclic : Acyclic w.WaitsFor :=
    h.acyclic_table.mono fun a b hab => hinv.waitsFor_iff.1 hab
  have hdom : ∀ a b, w.WaitsFor a b → a ∈ {t : TxnId | (w.table.waiting[t]?).isSome} := by
    intro a b hab
    obtain ⟨p, hp, -⟩ := hinv.waitsFor_iff.1 hab
    exact Option.isSome_iff_exists.2 ⟨p, hp⟩
  have hwf := hacyclic.wellFounded w.table.finite_waiting hdom
  exact ⟨hacyclic, fun t _ => alwaysReaches_of_wellFounded hwf (fun u => hinv.free_or_woken) t⟩

/-- A writer that was woken: two transactions share a page, a third owns another page and waits for
the shared one, a fourth waits for the page of the third, and then one of the sharers lets go. -/
def wokenWriter : Callers :=
  let w := ((((start.ask ⟨1⟩ ⟨⟨1⟩, 0⟩ .shared).ask ⟨2⟩ ⟨⟨1⟩, 0⟩ .shared).ask ⟨3⟩ ⟨⟨1⟩, 1⟩ .exclusive).ask
    ⟨3⟩ ⟨⟨1⟩, 0⟩ .exclusive).ask ⟨4⟩ ⟨⟨1⟩, 1⟩ .shared
  { w with table := (w.table.release ⟨⟨1⟩, 0⟩ ⟨1⟩).1 }

theorem reachable_wokenWriter : Reachable wokenWriter :=
  .step (.step (.step (.step (.step (.step .start (.acquire _ _ rfl)) (.acquire _ _ rfl))
    (.acquire _ _ rfl)) (.acquire _ _ rfl)) (.acquire _ _ (by cbv))) (.release _ (by cbv))

/-- There the fourth transaction waits for the third, which was woken. -/
theorem no_undetected_deadlock_wokenWriter :
    wokenWriter.WaitsFor ⟨4⟩ ⟨3⟩ ∧ wokenWriter.Woken ⟨3⟩ ∧ Acyclic wokenWriter.WaitsFor ∧
    AlwaysReaches wokenWriter.WaitsFor
      (fun u => wokenWriter.blocked u = none ∨ wokenWriter.Woken u) ⟨4⟩ := by
  have hheld : wokenWriter.table.holders ⟨⟨1⟩, 1⟩ = [⟨3⟩] := by cbv
  have h := no_undetected_deadlock reachable_wokenWriter
  exact ⟨⟨⟨1, ⟨⟨1⟩, 1⟩, .shared⟩, by cbv, by simp [hheld]⟩,
    ⟨⟨0, ⟨⟨1⟩, 0⟩, .exclusive⟩, by cbv, by cbv⟩, h.1, h.2 ⟨4⟩ (by cbv)⟩

end Callers

end PageEngine
