import PageEngine.Proofs.Locking.Wakeups
import PageEngine.Proofs.Pool.Bounds

/-!
# `Proofs/Pool/Abort.lean` — an abort, whatever the pool has come to

A pool comes about by any operations on its cache (`Pool.Reaches`), and its lock table by any requests and
releases (`LockTable.Reachable`). At every such pool an abort of `t` succeeds. It could fail only where it
gives the locks back, and there it goes by the pages that are listed for `t`, which are those whose records
name it.

> **an abort restores the cached pages that `t` holds exclusively, marked or not**, gives back what `t` holds,
> and leaves everything else alone; the storage is not asked for anything.

A page of which `t` holds a share is not restored, whoever has dirtied it. Aborting again finds nothing held,
so it only counts.
-/

set_option autoImplicit false

namespace PageEngine

open Std

namespace LockTable

theorem erase_erase {α β : Type} [Ord α] [TransOrd α] [LawfulEqOrd α] (m : ExtTreeMap α β) (k : α) :
    (m.erase k).erase k = m.erase k := by
  refine ExtTreeMap.ext_getElem? fun a => ?_
  simp only [ExtTreeMap.getElem?_erase]
  split <;> rfl

/-- After everything is given back there is nothing more to give back. -/
theorem releaseAll_again (L : LockTable) (t : TxnId) :
    (L.releaseAll t).1.releaseAll t = ((L.releaseAll t).1, .ok ()) := by
  have hheld := L.held_releaseAll t
  have hwaiting := L.waiting_releaseAll t
  generalize (L.releaseAll t).1 = R at hheld hwaiting
  have hpages : R.heldPages t = [] := by
    rw [heldPages, heldSet, hheld]
    simp
  have hdrop : ({ R.stopWaiting t with held := R.held.erase t } : LockTable) = R := by
    rw [stopWaiting, hheld, hwaiting, erase_erase, erase_erase, ← hheld, ← hwaiting]
  rw [releaseAll_eq, hpages, hdrop]
  rfl

end LockTable

namespace Pool

section Abort

variable {δ : Type} {P P₀ : Pool δ}

/-- An abort is made of what it does to the pages, to the locks and to the counters. -/
theorem complete_abort [Storage δ] (P : Pool δ) (t : TxnId) :
    P.complete t false =
      (((P.restoreHeld t).withLocks (P.locks.releaseAll t).1).countEnd false,
        (P.locks.releaseAll t).2) := by
  have hlocks : (P.restoreHeld t).locks = P.locks := by rw [restoreHeld, restorePages_eq]
  have hsettle : P.settlePages t false = (P.restoreHeld t, .ok ()) := rfl
  simp only [complete, hsettle, releaseAll, hlocks]
  rfl

/-- What an abort of `t` does, exactly. -/
structure AbortsExactly [Storage δ] (P : Pool δ) (t : TxnId) : Prop where
  /-- It does not fail, -/
  ok : (P.complete t false).2 = .ok ()
  /-- and the part that gives back the locks does not, if others come in before it. -/
  releases : (P.releaseAll t).2 = .ok ()
  /-- The cached pages that `t` holds exclusively are clean, with their before-images for contents. -/
  restored : ∀ (p : PageId) (f : FrameId), P.locks.modeOf p t = some .exclusive →
    P.resident[p]? = some f → (P.complete t false).1.page f =
      { P.page f with data := (P.page f).beforeImage, dirty := none }
  /-- An image that is cached for no such page is left alone. -/
  kept : ∀ f : FrameId, (∀ p : PageId, P.locks.modeOf p t = some .exclusive → P.resident[p]? ≠ some f) →
    (P.complete t false).1.page f = P.page f
  /-- If the storage reads the pages that it is asked for, no image is cached for two pages, so every other
  cached page is left alone, also one that `t` shares. -/
  apart : ReadsOwn δ → ∀ (p : PageId) (f : FrameId), P.locks.modeOf p t ≠ some .exclusive →
    P.resident[p]? = some f → (P.complete t false).1.page f = P.page f
  resident : (P.complete t false).1.resident = P.resident
  storage : (P.complete t false).1.storage = P.storage
  /-- Nothing is asked of the storage: over any other one the same happens. -/
  quiet : ∀ (ε : Type) [Storage ε] (s : ε),
    (P.withStorage s).complete t false = ((P.complete t false).1.withStorage s, .ok ())
  released : ∀ p, (P.complete t false).1.locks.modeOf p t = none
  others : ∀ p u, u ≠ t → (P.complete t false).1.locks.modeOf p u = P.locks.modeOf p u
  /-- Nothing is left for a second abort but to count. -/
  again : (P.complete t false).1.complete t false = ((P.complete t false).1.countEnd false, .ok ())

theorem restorePages_withStorage {ε : Type} (s : ε) (t : TxnId) (ps : List PageId) : ∀ P : Pool δ,
    ps.foldl (fun P p => P.restorePage t p) (P.withStorage s) =
      (ps.foldl (fun P p => P.restorePage t p) P).withStorage s := by
  induction ps with
  | nil => exact fun P => rfl
  | cons p ps ih =>
    intro P
    have hone : (P.withStorage s).restorePage t p = (P.restorePage t p).withStorage s := by
      have hlocks : (P.withStorage s).locks = P.locks := rfl
      have hresident : (P.withStorage s).resident = P.resident := rfl
      unfold restorePage
      rw [hlocks, hresident]
      split
      · split <;> rfl
      · rfl
    rw [List.foldl_cons, List.foldl_cons, hone, ih]

variable [Storage δ]

/-- **An abort, exactly**, at every pool to which operations lead, over any storage and whatever its calls
come to. -/
theorem aborts_exactly {o : Options} {draws : Draws} {s : δ}
    (hP₀ : create o.capacity draws s = .ok P₀) (hP : P₀.Reaches P) (hL : P.locks.Reachable) (t : TxnId) :
    AbortsExactly P t := by
  obtain ⟨hok, hmode⟩ := LockTable.releaseAll_spec hL.inv.1 t
  have habort := P.complete_abort t
  have hrestored : P.restoreHeld t = { P with frames := (P.restoreHeld t).frames } := restorePages_eq t _ P
  have hpage : ∀ f, (P.complete t false).1.page f = (P.restoreHeld t).page f := fun f => by
    rw [habort]
    rfl
  have hheld : ∀ p, P.locks.modeOf p t = some .exclusive → p ∈ P.locks.heldPages t := fun p hX =>
    (LockTable.mem_heldPages hL.inv.1).2 (by rw [hX]; rfl)
  refine ⟨by rw [habort]; exact hok, hok, fun p f hX hf => ?_, fun f hf => ?_, fun hread p f hX hf => ?_, ?_, ?_,
    fun ε _ s => ?_, fun p => ?_, fun p u hu => ?_, ?_⟩
  · rw [hpage]
    exact (page_restorePages t f _ P).1 ⟨p, hheld p hX, hX, hf⟩
  · rw [hpage]
    exact (page_restorePages t f _ P).2 fun p _ => hf p
  · obtain ⟨hpos, hbounded₀⟩ := bounded_create hP₀
    have hfiled := (hP.bounded hread hpos hbounded₀).filed
    rw [hpage]
    exact (page_restorePages t f _ P).2 fun q _ hqX hqf => hX (hfiled.eq_of_resident hf hqf ▸ hqX)
  · rw [habort, hrestored]
    rfl
  · rw [habort, hrestored]
    rfl
  · have hpages : (P.withStorage s).restoreHeld t = (P.restoreHeld t).withStorage s :=
      restorePages_withStorage s t _ P
    rw [habort, complete_abort, hpages]
    exact congrArg (Prod.mk _) hok
  · rw [habort]
    exact (hmode p t).trans (if_pos rfl)
  · rw [habort]
    exact (hmode p u).trans (if_neg hu)
  · have hlocks : (P.complete t false).1.locks = (P.locks.releaseAll t).1 := by rw [habort]; rfl
    generalize (P.complete t false).1 = Q at hlocks
    have hagain := P.locks.releaseAll_again t
    rw [← hlocks] at hagain
    have hnone : Q.locks.heldPages t = [] := by
      rw [LockTable.heldPages, LockTable.heldSet, hlocks, LockTable.held_releaseAll]
      simp
    have hpages : Q.restoreHeld t = Q := by
      rw [restoreHeld, hnone]
      rfl
    rw [complete_abort, hagain, hpages]
    rfl

end Abort

/-- Transaction 1 holds the first page of a table exclusively. -/
def firstHeld : LockTable := (LockTable.empty.attempt ⟨⟨1⟩, 0⟩ ⟨1⟩ .exclusive).1

theorem aborts_exactly_crowd :
    create 1 (Draws.ofSeed 7) pairPool.storage = .ok freshPair ∧
      freshPair.Reaches (freshPair.crowd.withLocks firstHeld) ∧ firstHeld.Reachable ∧
      AbortsExactly (freshPair.crowd.withLocks firstHeld) ⟨1⟩ :=
  have hreaches : freshPair.Reaches (freshPair.crowd.withLocks firstHeld) :=
    freshPair.reaches_crowd.step (o := .relock firstHeld) trivial
  have hlocks : firstHeld.Reachable := .attempt _ _ _ .empty
  ⟨rfl, hreaches, hlocks, aborts_exactly (o := { capacity := 1 }) rfl hreaches hlocks ⟨1⟩⟩

end Pool

end PageEngine
