import Mathlib.Logic.Function.Basic
import PageEngine.Proofs.World.History

/-!
# `Proofs/World/Serial.lean` — transactions one after another

A transaction is taken here for the list of its steps: it reads a page, or overwrites one by a rule from
everything that it has read so far. Run alone on a map from pages to contents it gives another map and
the list of what it has read.

A history is **orderly** if what was handed out and what was written was as it should be, and if no
transaction has touched a page that another one had changed and then committed. Of orderly histories it
is shown that:

> **the committed transactions, run alone one after another in the order of their commits, read what
> they read and leave what is committed.**
-/

set_option autoImplicit false

namespace PageEngine

/-! ## Running alone -/

/-- What a transaction does with a page. -/
inductive PageStep where
  | read (p : PageId)
  | write (p : PageId) (rule : Rule)

namespace PageStep

def page : PageStep → PageId
  | read p => p
  | write p _ => p

/-- What a step does to the pages, and to what its transaction has read so far. -/
def run (s : (PageId → PageData) × List PageData) : PageStep → (PageId → PageData) × List PageData
  | read p => (s.1, s.2 ++ [s.1 p])
  | write p rule => (Function.update s.1 p (rule s.2), s.2)

/-- What a transaction leaves of the pages when it runs alone, and what it reads. -/
def replay (pages : PageId → PageData) (steps : List PageStep) :
    (PageId → PageData) × List PageData :=
  steps.foldl run (pages, [])

/-- What transactions leave of the pages when they run one after another, and what each of them
reads. -/
def serial (pages : PageId → PageData) (txns : List (List PageStep)) :
    (PageId → PageData) × List (List PageData) :=
  txns.foldl (fun s steps => ((replay s.1 steps).1, s.2 ++ [(replay s.1 steps).2])) (pages, [])

theorem replay_append (pages : PageId → PageData) (steps : List PageStep) (s : PageStep) :
    replay pages (steps ++ [s]) = run (replay pages steps) s := by
  rw [replay, List.foldl_append]
  rfl

theorem serial_append (pages : PageId → PageData) (txns : List (List PageStep))
    (steps : List PageStep) :
    serial pages (txns ++ [steps]) =
      ((replay (serial pages txns).1 steps).1,
        (serial pages txns).2 ++ [(replay (serial pages txns).1 steps).2]) := by
  rw [serial, List.foldl_append]
  rfl

theorem foldl_run_other {p : PageId} :
    ∀ (steps : List PageStep) (s : (PageId → PageData) × List PageData),
      (∀ x ∈ steps, x.page ≠ p) → (steps.foldl run s).1 p = s.1 p := by
  intro steps
  induction steps with
  | nil => exact fun s _ => rfl
  | cons x steps ih =>
    intro s h
    have hx := h x List.mem_cons_self
    rw [List.foldl_cons, ih _ fun y hy => h y (List.mem_cons_of_mem x hy)]
    cases x with
    | read q => rfl
    | write q rule => exact Function.update_of_ne (Ne.symm hx) _ _

/-- Steps that touch only pages on which two states agree lead to states that agree there. -/
theorem foldl_run_congr {T : PageId → Prop} :
    ∀ (steps : List PageStep) (s s' : (PageId → PageData) × List PageData),
      (∀ p, T p → s'.1 p = s.1 p) → s'.2 = s.2 → (∀ x ∈ steps, T x.page) →
      (∀ p, T p → (steps.foldl run s').1 p = (steps.foldl run s).1 p) ∧
        (steps.foldl run s').2 = (steps.foldl run s).2 := by
  intro steps
  induction steps with
  | nil => exact fun s s' hp hr _ => ⟨hp, hr⟩
  | cons x steps ih =>
    intro s s' hp hr hT
    have hx := hT x List.mem_cons_self
    rw [List.foldl_cons, List.foldl_cons]
    refine ih _ _ ?_ ?_ fun y hy => hT y (List.mem_cons_of_mem x hy)
    · intro p hTp
      cases x with
      | read q => exact hp p hTp
      | write q rule =>
        simp only [run, hr]
        by_cases hpq : p = q
        · subst hpq
          rw [Function.update_self, Function.update_self]
        · rw [Function.update_of_ne hpq, Function.update_of_ne hpq, hp p hTp]
    · cases x with
      | read q => simp only [run, hr, hp q hx]
      | write q rule => exact hr

/-- **A transaction depends on the pages that it touches and on no others**, and leaves the others as it
finds them. -/
theorem replay_congr {pages pages' : PageId → PageData} {steps : List PageStep}
    (h : ∀ p ∈ steps.map page, pages' p = pages p) :
    (replay pages' steps).2 = (replay pages steps).2 ∧
    ∀ p, (replay pages' steps).1 p =
      if p ∈ steps.map page then (replay pages steps).1 p else pages' p := by
  obtain ⟨hstore, hreads⟩ := foldl_run_congr (T := (· ∈ steps.map page)) steps (pages, [])
    (pages', []) h rfl fun x hx => List.mem_map_of_mem hx
  refine ⟨hreads, ?_⟩
  intro p
  split
  · rename_i hp
    exact hstore p hp
  · rename_i hp
    exact foldl_run_other steps _ fun x hx hxp => hp (hxp ▸ List.mem_map_of_mem hx)

end PageStep

/-! ## Orderly histories -/

namespace History

/-- The steps of a transaction since it began. -/
def steps (t : TxnId) : History → List PageStep
  | [] => []
  | .got u p _ :: h => if u = t then steps t h ++ [.read p] else steps t h
  | .edited u p rule _ :: h => if u = t then steps t h ++ [.write p rule] else steps t h
  | .ended u _ :: h => if u = t then [] else steps t h
  | .stored .. :: h => steps t h
  | .appended _ :: h => steps t h
  | .registered .. :: h => steps t h

def touched (t : TxnId) (h : History) : List PageId := (steps t h).map PageStep.page

/-- The committed transactions in the order of their commits: the steps of each, and what it has
read. -/
def commits : History → List (List PageStep × List PageData)
  | [] => []
  | .ended t true :: h => commits h ++ [(steps t h, reads t h)]
  | .ended _ false :: h => commits h
  | .got .. :: h => commits h
  | .edited .. :: h => commits h
  | .stored .. :: h => commits h
  | .appended _ :: h => commits h
  | .registered .. :: h => commits h

/-- Transactions of whole pages have made the history, they were handed and wrote what they should, and
none has touched a page that another one had changed when it committed. -/
def Orderly (origin : PageId → PageData) : History → Prop
  | [] => True
  | .got t p d :: h => d = view origin t p h ∧ Orderly origin h
  | .edited t _ rule d :: h => d = rule (reads t h) ∧ Orderly origin h
  | .ended t _ :: h =>
    (∀ u, u ≠ t → ∀ p ∈ touched u h, own t p h = none) ∧ Orderly origin h
  | .stored .. :: _ => False
  | .appended _ :: _ => False
  | .registered .. :: _ => False

variable {origin : PageId → PageData}

theorem own_of_untouched {t : TxnId} {p : PageId} :
    ∀ {h : History}, Orderly origin h → p ∉ touched t h → own t p h = none := by
  intro h
  induction h with
  | nil => exact fun _ _ => rfl
  | cons e h ih =>
    intro ho hp
    cases e with
    | got u q d =>
      refine ih ho.2 fun hmem => hp ?_
      simp only [touched, steps]
      split
      · exact List.map_append ▸ List.mem_append_left _ hmem
      · exact hmem
    | edited u q rule d =>
      simp only [own, touched, steps] at hp ⊢
      by_cases hu : u = t
      · simp only [if_pos hu, List.map_append, List.mem_append, not_or] at hp
        have hq : q ≠ p := fun hqp => hp.2 (by simp [PageStep.page, hqp])
        rw [if_neg fun hc => hq hc.2]
        exact ih ho.2 hp.1
      · rw [if_neg fun hc => hu hc.1]
        rw [if_neg hu] at hp
        exact ih ho.2 hp
    | ended u commit =>
      simp only [own, touched, steps] at hp ⊢
      split
      · rfl
      · rename_i hu
        rw [if_neg hu] at hp
        exact ih ho.2 hp
    | stored u q d => exact ho.elim
    | appended q => exact ho.elim
    | registered table bytes => exact ho.elim

/-- **A transaction that is run alone on what is committed has read what it was handed, and finds in
every page what it should see.** -/
theorem Orderly.replay_eq :
    ∀ {h : History}, Orderly origin h → ∀ t,
      PageStep.replay (fun p => committed origin p h) (steps t h) =
        (fun p => view origin t p h, reads t h) := by
  intro h
  induction h with
  | nil => exact fun _ t => rfl
  | cons e h ih =>
    intro ho t
    cases e with
    | got u q d =>
      have hrun := ih ho.2 t
      show PageStep.replay (fun p => committed origin p h) _ = (fun p => view origin t p h, _)
      simp only [steps, reads]
      by_cases hu : u = t
      · rw [if_pos hu, if_pos hu, PageStep.replay_append, hrun, ho.1, hu]
        rfl
      · rw [if_neg hu, if_neg hu, hrun]
    | edited u q rule d =>
      have hrun := ih ho.2 t
      show PageStep.replay (fun p => committed origin p h) _ = (_, reads t h)
      simp only [steps, view, own, committed]
      by_cases hu : u = t
      · rw [if_pos hu, PageStep.replay_append, hrun, ho.1, hu]
        simp only [PageStep.run, true_and]
        congr 1
        funext p
        by_cases hp : p = q
        · rw [hp, Function.update_self, if_pos rfl]
          rfl
        · rw [Function.update_of_ne hp, if_neg fun hc => hp hc.symm]
          rfl
      · rw [if_neg hu, hrun]
        congr 1
        funext p
        rw [if_neg fun hc => hu hc.1]
        rfl
    | ended u commit =>
      by_cases hu : u = t
      · simp only [steps, reads, view, own, if_pos hu]
        rfl
      · have hrun := ih ho.2 t
        have hsame : ∀ p ∈ (steps t h).map PageStep.page,
            committed origin p (.ended u commit :: h) = committed origin p h := by
          intro p hp
          cases commit with
          | false => rfl
          | true =>
            have hnone := ho.1 t (Ne.symm hu) p hp
            simp only [committed, hnone]
            rfl
        obtain ⟨hreads, hstore⟩ := PageStep.replay_congr hsame
        simp only [steps, reads, view, own, if_neg hu]
        refine Prod.ext (funext ?_) ?_
        · intro p
          rw [hstore]
          show _ = (own t p h).getD (committed origin p (.ended u commit :: h))
          split
          · rename_i hp
            rw [hrun, hsame p hp]
            rfl
          · rename_i hp
            rw [own_of_untouched ho.2 hp]
            rfl
        · rw [hreads, hrun]
    | stored u q d => exact ho.elim
    | appended q => exact ho.elim
    | registered table bytes => exact ho.elim

/-- **The committed transactions, run alone one after another in the order of their commits, read what
they have read and leave what is committed.** -/
theorem Orderly.serial_eq :
    ∀ {h : History}, Orderly origin h →
      PageStep.serial origin ((commits h).map Prod.fst) =
        (fun p => committed origin p h, (commits h).map Prod.snd) := by
  intro h
  induction h with
  | nil => exact fun _ => rfl
  | cons e h ih =>
    intro ho
    cases e with
    | got u q d => exact ih ho.2
    | edited u q rule d => exact ih ho.2
    | ended u commit =>
      cases commit with
      | false => exact ih ho.2
      | true =>
        simp only [commits, List.map_append, List.map_cons, List.map_nil]
        rw [PageStep.serial_append, ih ho.2]
        dsimp only
        rw [ho.2.replay_eq u]
        rfl
    | stored u q d => exact ho.elim
    | appended q => exact ho.elim
    | registered table bytes => exact ho.elim

end History

end PageEngine
