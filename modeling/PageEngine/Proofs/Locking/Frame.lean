import PageEngine.Proofs.Locking.Deadlock
import PageEngine.Proofs.Locking.Consistency
import PageEngine.Proofs.Locking.Victims

/-!
# `Proofs/Locking/Frame.lean` — what a transaction's own lock operations leave alone

An attempt enters a wait and searches the graph before it knows what comes of it, and a grant can make
a record, raise a hold in place or end a wait. Seen from everybody else nothing of this happens:

> **a step of one transaction changes no hold and no wait of another one**, an attempt that is not
> granted changes no hold at all, and one that ends in a deadlock leaves the whole table as it was.

The last part says more than that the requester stops waiting. An attempt takes back the wait that it
entered, which may have been there before it: the wait of a call that was woken and asks again. But
such a call never ends in a deadlock, because its wait adds no edge to a graph that has no cycle.
-/

set_option autoImplicit false

namespace PageEngine

open Std Relation

namespace LockTable

variable {L : LockTable} {p : PageId} {t : TxnId} {m : Mode}

/-! ## Attempts -/

/-- Two transactions hold a page in modes that are compatible. -/
theorem compatible_of_held {u v : TxnId} {n o : Mode} (hne : u ≠ v) (hu : L.modeOf p u = some n)
    (hv : L.modeOf p v = some o) : n.compatible o = true := by
  cases n with
  | exclusive => exact absurd (eq_of_modeOf_exclusive hu (by simp [hv])).symm hne
  | shared =>
    cases o with
    | exclusive => exact absurd (eq_of_modeOf_exclusive hv (by simp [hu])) hne
    | shared => rfl

theorem records_attempt (h : (L.attempt p t m).2 ≠ .granted) :
    (L.attempt p t m).1.records = L.records ∧ (L.attempt p t m).1.held = L.held := by
  rcases L.attempt_cases p t m with ⟨l, -, ha⟩ | ⟨-, -, ha⟩ | ⟨-, -, ha⟩
  · exact absurd (by rw [ha]) h
  · rw [ha]
    exact ⟨rfl, rfl⟩
  · rw [ha]
    exact ⟨rfl, rfl⟩

theorem heldSet_attempt (L : LockTable) (p : PageId) (t : TxnId) (m : Mode) (u : TxnId) :
    (L.attempt p t m).1.heldSet u =
      if (L.attempt p t m).2 = .granted ∧ u = t then (L.heldSet t).insert p else L.heldSet u := by
  by_cases hgrant : (L.attempt p t m).2 = .granted
  · rcases L.attempt_cases p t m with ⟨l, -, ha⟩ | ⟨-, -, ha⟩ | ⟨-, -, ha⟩
    · simp [ha, heldSet_grant]
    · simp [ha] at hgrant
    · simp [ha, putToSleep] at hgrant
  · rw [if_neg fun h => hgrant h.1, heldSet, (records_attempt hgrant).2, heldSet]

/-- A transaction that waits for a page and asks for it again is never refused for a deadlock. -/
theorem attempt_of_waiting (h : Acyclic L.WaitsFor) (hwait : L.waiting[t]? = some p) :
    (L.attempt p t m).2 ≠ .deadlock := by
  have hacyclic : Acyclic (L.waitFor t p).WaitsFor := by
    refine h.mono fun a b hab => ?_
    rw [waitsFor_waitFor] at hab
    split at hab
    · rename_i ha
      exact ⟨p, ha ▸ hwait, hab⟩
    · exact hab
  exact fun hdead => hacyclic t (attempt_deadlock_iff.1 hdead).2

/-- **A deadlock leaves the table of a transaction that did not wait before as it was.** -/
theorem attempt_of_deadlock (hidle : L.waiting[t]? = none) (hdead : (L.attempt p t m).2 = .deadlock) :
    (L.attempt p t m).1 = L := by
  rcases L.attempt_cases p t m with ⟨l, -, ha⟩ | ⟨-, -, ha⟩ | ⟨-, -, ha⟩
  · simp [ha] at hdead
  · have hback : (L.waiting.insert t p).erase t = L.waiting := by
      refine ExtTreeMap.ext_getElem? fun u => ?_
      by_cases hu : t = u
      · simp [← hu, hidle]
      · simp [ExtTreeMap.getElem?_erase, ExtTreeMap.getElem?_insert, hu]
    rw [ha, stopWaiting, waitFor, hback]
  · simp [ha, putToSleep] at hdead

/-! ## Releases -/

theorem heldSet_release (h : L.Consistent) (p : PageId) {t u : TxnId} (hu : u ≠ t) :
    (L.release p t).1.heldSet u = L.heldSet u := by
  refine ExtTreeSet.ext_mem fun q => ?_
  rw [(h.release p t).heldBy, h.heldBy, modeOf_release h, if_neg fun hq => hu hq.2]

theorem heldSet_releaseAll (L : LockTable) {t u : TxnId} (hu : u ≠ t) :
    (L.releaseAll t).1.heldSet u = L.heldSet u := by
  simp [heldSet, held_releaseAll, ExtTreeMap.getElem?_erase, Ne.symm hu]

end LockTable

namespace Callers

/-! ## The steps of one transaction -/

/-- `t` may ask for `p` in mode `m` next: with a new call, or with its blocked call once it was woken. -/
def MayAsk (w : Callers) (t : TxnId) (p : PageId) (m : Mode) : Prop :=
  w.blocked t = none ∨
  ∃ c, w.blocked t = some c ∧ w.table.sleeps c.ticket = false ∧ c.page = p ∧ c.mode = m

/-- What `t` does next. -/
inductive StepOf (t : TxnId) : Callers → Callers → Prop
  | ask {w : Callers} {p : PageId} {m : Mode} : w.MayAsk t p m → StepOf t w (w.ask t p m)
  | release {w : Callers} (p : PageId) :
      w.blocked t = none → StepOf t w { w with table := (w.table.release p t).1 }
  | releaseAll {w : Callers} :
      w.blocked t = none → StepOf t w { w with table := (w.table.releaseAll t).1 }

/-- What `u` holds and waits for is the same in both states. -/
structure SameFor (u : TxnId) (w w' : Callers) : Prop where
  modeOf : ∀ p, w'.table.modeOf p u = w.table.modeOf p u
  heldSet : w'.table.heldSet u = w.table.heldSet u
  waiting : w'.table.waiting[u]? = w.table.waiting[u]?
  blocked : w'.blocked u = w.blocked u

theorem sameFor_ask (w : Callers) {t u : TxnId} (hu : u ≠ t) (p : PageId) (m : Mode) :
    SameFor u w (w.ask t p m) := by
  obtain ⟨htab, hblocked⟩ := w.ask_cases t p m
  refine ⟨fun q => ?_, ?_, ?_, ?_⟩
  · rw [htab, LockTable.modeOf_attempt, if_neg fun h => hu h.2.2]
  · rw [htab, LockTable.heldSet_attempt, if_neg fun h => hu h.2]
  · rw [htab]
    rcases w.table.attempt_ends_or_sleeps p t m with ⟨-, hwait, -⟩ | ⟨-, hwait, -⟩
    · rw [hwait, if_neg hu]
    · rw [hwait, if_neg hu]
  · rcases hblocked with ⟨-, hb⟩ | ⟨k, -, hb⟩
    · rw [hb, Function.update_of_ne hu]
    · rw [hb, Function.update_of_ne hu]

/-- **A step of one transaction changes nothing for another.** -/
theorem StepOf.sameFor {w w' : Callers} {t u : TxnId} (h : StepOf t w w')
    (hcons : w.table.Consistent) (hu : u ≠ t) : SameFor u w w' := by
  cases h with
  | ask hmay => exact w.sameFor_ask hu _ _
  | release p hidle =>
    refine ⟨fun q => ?_, LockTable.heldSet_release hcons p hu, ?_, rfl⟩
    · rw [LockTable.modeOf_release hcons, if_neg fun hq => hu hq.2]
    · rw [LockTable.waiting_release]
  | releaseAll hidle =>
    refine ⟨fun q => ?_, LockTable.heldSet_releaseAll _ hu, ?_, rfl⟩
    · rw [(LockTable.releaseAll_spec hcons t).2, if_neg hu]
    · rw [LockTable.waiting_releaseAll, ExtTreeMap.getElem?_erase,
        if_neg fun h => hu (Std.compare_eq_iff_eq.1 h).symm]

/-- **A deadlock ends a new call only, and leaves the state as it was.** -/
theorem Reachable.ask_of_deadlock {w : Callers} (h : Reachable w) {t : TxnId} {p : PageId} {m : Mode}
    (hmay : w.MayAsk t p m) (hdead : (w.table.attempt p t m).2 = .deadlock) :
    w.blocked t = none ∧ w.ask t p m = w := by
  have hidle : w.blocked t = none := by
    rcases hmay with hidle | ⟨c, hc, -, rfl, rfl⟩
    · exact hidle
    · have hwait : w.table.waiting[t]? = some c.page := by rw [h.inv.waiting, hc]; rfl
      exact absurd hdead (LockTable.attempt_of_waiting h.acyclic_table hwait)
  have hnowait : w.table.waiting[t]? = none := by rw [h.inv.waiting, hidle]; rfl
  refine ⟨hidle, ?_⟩
  obtain ⟨htab, ⟨-, hb⟩ | ⟨k, hk, -⟩⟩ := w.ask_cases t p m
  · have hsame : (w.ask t p m).blocked = w.blocked := by
      rw [hb, ← hidle, Function.update_eq_self]
    rw [LockTable.attempt_of_deadlock hnowait hdead] at htab
    calc w.ask t p m = ⟨(w.ask t p m).table, (w.ask t p m).blocked⟩ := rfl
      _ = ⟨w.table, w.blocked⟩ := by rw [htab, hsame]
  · rw [hdead] at hk
    cases hk

/-- **The lock operations of a transaction touch only its own holds and its own wait.** A granted
request raises the requester's hold on the page to at least the mode it asked for, never lowers an
exclusive one, and ends its wait; whoever holds the page then holds it in compatible modes. A request
that is not granted changes no record and no held set. After a deadlock the requester, which made a
new call, waits for nothing, and the state is the one before the call; so are the edges that a look at
the kept graph finds. -/
theorem operations_framed {w : Callers} {g : WaitGraph} (h : ReachableWith w g) (t : TxnId) :
    (∀ w', StepOf t w w' → ∀ u, u ≠ t → SameFor u w w') ∧
    ∀ p m, w.MayAsk t p m →
      ((w.table.attempt p t m).2 = .granted →
        (∃ n, (w.ask t p m).table.modeOf p t = some n ∧ m.sup n = n ∧
          (w.table.modeOf p t = some .exclusive → n = .exclusive)) ∧
        (∀ q, q ≠ p → (w.ask t p m).table.modeOf q t = w.table.modeOf q t) ∧
        (w.ask t p m).table.heldSet t = (w.table.heldSet t).insert p ∧
        (w.ask t p m).table.waiting[t]? = none ∧
        ∀ u v n o, u ≠ v → (w.ask t p m).table.modeOf p u = some n →
          (w.ask t p m).table.modeOf p v = some o → n.compatible o = true) ∧
      ((w.table.attempt p t m).2 ≠ .granted →
        (w.ask t p m).table.records = w.table.records ∧
        (w.ask t p m).table.held = w.table.held) ∧
      ((w.table.attempt p t m).2 = .deadlock →
        w.blocked t = none ∧ w.table.waiting[t]? = none ∧ (w.askWith g t p m).1 = w ∧
        ((w.askWith g t p m).1.table.redraw (w.askWith g t p m).2).edges =
          (w.table.redraw g).edges) := by
  obtain ⟨hreach, hcov⟩ := h.reachable
  refine ⟨fun w' hstep u hu => hstep.sameFor hreach.inv.consistent hu, fun p m hmay => ⟨?_, ?_, ?_⟩⟩
  · intro hgrant
    have htab := (w.ask_cases t p m).1
    have hmode := LockTable.modeOf_attempt w.table p t m
    simp only [hgrant, true_and] at hmode
    refine ⟨⟨Mode.raised (w.table.modeOf p t) m, ?_, ?_, ?_⟩, fun q hq => ?_, ?_, ?_, ?_⟩
    · rw [htab, hmode, if_pos ⟨rfl, rfl⟩]
    · cases w.table.modeOf p t with
      | none => cases m <;> rfl
      | some o => cases m <;> cases o <;> rfl
    · intro hexcl
      rw [hexcl, Mode.raised_exclusive]
    · rw [htab, hmode, if_neg fun hp => hq hp.1]
    · rw [htab, LockTable.heldSet_attempt, if_pos ⟨hgrant, rfl⟩]
    · rw [htab]
      rcases w.table.attempt_ends_or_sleeps p t m with ⟨-, hwait, -⟩ | ⟨hsleeps, -⟩
      · rw [hwait, if_pos rfl]
      · rw [hgrant] at hsleeps
        cases hsleeps
    · intro u v n o hne hu hv
      exact LockTable.compatible_of_held hne hu hv
  · intro hrefused
    rw [(w.ask_cases t p m).1]
    exact LockTable.records_attempt hrefused
  · intro hdead
    obtain ⟨hidle, hsame⟩ := hreach.ask_of_deadlock hmay hdead
    obtain ⟨heq, hcov'⟩ := askWith_eq hcov t p m
    rw [hsame] at heq hcov'
    refine ⟨hidle, by rw [hreach.inv.waiting, hidle]; rfl, heq, ?_⟩
    rw [heq, LockTable.redraw_eq hcov', LockTable.redraw_eq hcov]

/-- Two transactions share a page, and a third that waits to own it has been drawn in the kept graph. -/
def sharedBeneath : Callers × WaitGraph :=
  let one := start.askWith {} ⟨1⟩ ⟨⟨1⟩, 0⟩ .shared
  let two := one.1.askWith one.2 ⟨2⟩ ⟨⟨1⟩, 0⟩ .shared
  two.1.askWith two.2 ⟨3⟩ ⟨⟨1⟩, 0⟩ .exclusive

/-- There the first transaction asks to own the page beside the other reader, and is aborted. -/
theorem operations_framed_upgrade :
    ReachableWith sharedBeneath.1 sharedBeneath.2 ∧
    sharedBeneath.1.MayAsk ⟨1⟩ ⟨⟨1⟩, 0⟩ .exclusive ∧
    (sharedBeneath.1.table.attempt ⟨⟨1⟩, 0⟩ ⟨1⟩ .exclusive).2 = .deadlock ∧
    (sharedBeneath.1.askWith sharedBeneath.2 ⟨1⟩ ⟨⟨1⟩, 0⟩ .exclusive).1 = sharedBeneath.1 ∧
    SameFor ⟨3⟩ sharedBeneath.1 (sharedBeneath.1.ask ⟨1⟩ ⟨⟨1⟩, 0⟩ .exclusive) := by
  have hreach : ReachableWith sharedBeneath.1 sharedBeneath.2 :=
    .acquire _ _ (.acquire _ _ (.acquire _ _ .start rfl) (by cbv)) (by cbv)
  have hmay : sharedBeneath.1.MayAsk ⟨1⟩ ⟨⟨1⟩, 0⟩ .exclusive := .inl (by cbv)
  have hdead : (sharedBeneath.1.table.attempt ⟨⟨1⟩, 0⟩ ⟨1⟩ .exclusive).2 = .deadlock := by cbv
  obtain ⟨hsame, hask⟩ := operations_framed hreach ⟨1⟩
  exact ⟨hreach, hmay, hdead, ((hask _ _ hmay).2.2 hdead).2.2.1, hsame _ (.ask hmay) ⟨3⟩ (by decide)⟩

end Callers

end PageEngine
