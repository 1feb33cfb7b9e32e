import PageEngine.Call
import PageEngine.Proofs.Pool.Fetching
import PageEngine.Proofs.World.Basic

/-!
# `Proofs/World/Solo.lean` — a call that nobody comes in between

The sections of one call, run one after another at a pool that nobody else touches, with a record of the pages
that the call was handed on its way. What such a run comes to is told section by section:

> **a goal is reached if it is reached from the next section on** (`Solo.ComesTo`).

The sections that install changed images come to one operation of the pool, `Pool.installAll`.
-/

set_option autoImplicit false

namespace PageEngine

open Std

/-- A call alone at a pool, and the pages that it was handed, with their bytes. -/
structure Solo where
  pool : Pool Tables
  call : Call
  got : List (PageId × PageData) := []

/-- The page that the next section of a call works with. -/
def Call.handed (c : Call) (P : Pool Tables) : List (PageId × PageData) :=
  match c.activity with
  | .working p f _ => [(p, (P.page f).data)]
  | _ => []

namespace Solo

/-- Runs the next section. -/
def step (s : Solo) : Solo where
  pool := (s.call.step s.pool).1
  call := (s.call.step s.pool).2
  got := s.got ++ s.call.handed s.pool

def run (s : Solo) : Nat → Solo
  | 0 => s
  | n + 1 => s.step.run n

/-- After some number of sections the goal holds. -/
def ComesTo (s : Solo) (goal : Solo → Prop) : Prop := ∃ n, goal (s.run n)

variable {s : Solo} {goal : Solo → Prop}

theorem ComesTo.here (h : goal s) : s.ComesTo goal := ⟨0, h⟩

theorem ComesTo.later (h : s.step.ComesTo goal) : s.ComesTo goal := by
  obtain ⟨n, hn⟩ := h
  exact ⟨n + 1, hn⟩

theorem ComesTo.trans {mid : Solo → Prop} (h : s.ComesTo mid) (h' : ∀ s', mid s' → s'.ComesTo goal) :
    s.ComesTo goal := by
  obtain ⟨n, hn⟩ := h
  induction n generalizing s with
  | zero => exact h' s hn
  | succ n ih => exact (ih hn).later

theorem ComesTo.mono {goal' : Solo → Prop} (h : s.ComesTo goal) (h' : ∀ s', goal s' → goal' s') :
    s.ComesTo goal' := by
  obtain ⟨n, hn⟩ := h
  exact ⟨n, h' _ hn⟩

/-! ## A call that has its result -/

theorem run_of_finished (hs : s.call.result?.isSome) (n : Nat) : s.run n = s := by
  have hstep : s.step = s := by
    obtain ⟨r, hr⟩ := Option.isSome_iff_exists.1 hs
    obtain ⟨P, c, got⟩ := s
    have hact : c.activity = .finished r := Call.result?_eq_some.1 hr
    simp [step, Call.step, Call.handed, hact]
  induction n with
  | zero => rfl
  | succ n ih => rw [run, hstep, ih]

theorem run_add (s : Solo) (n m : Nat) : s.run (n + m) = (s.run n).run m := by
  induction n generalizing s with
  | zero => rw [Nat.zero_add, run]
  | succ n ih => rw [Nat.succ_add, run, run, ih]

/-- A goal at which the call has its result is kept. -/
theorem ComesTo.stays (h : s.ComesTo goal) (hgoal : ∀ s, goal s → s.call.result?.isSome) :
    ∃ n, ∀ m, n ≤ m → goal (s.run m) := by
  obtain ⟨n, hn⟩ := h
  refine ⟨n, fun m hm => ?_⟩
  obtain ⟨k, rfl⟩ := Nat.exists_eq_add_of_le hm
  rwa [run_add, run_of_finished (hgoal _ hn)]

/-! ## Installing images -/

/-- The images that a store has changed are installed. -/
theorem comesTo_installing (fs : List FrameId) : ∀ (P : Pool Tables) (c : Call) (got : List (PageId × PageData)),
    ComesTo ⟨P, c.goOn (.installing fs), got⟩ fun s =>
      s.pool = (P.installAll c.txn fs).1 ∧ s.got = got ∧
        s.call = c.finish ((P.installAll c.txn fs).2.map fun _ => .done) := by
  induction fs with
  | nil =>
    intro P c got
    exact .later (.here ⟨rfl, List.append_nil got, rfl⟩)
  | cons f fs ih =>
    intro P c got
    refine .later ?_
    rcases hinstall : P.install c.txn f with ⟨Q, e | ⟨⟩⟩
    · have hstep : step ⟨P, c.goOn (.installing (f :: fs)), got⟩ = ⟨Q, c.fail e, got⟩ := by
        simp [step, Call.step, Call.goOn, hinstall, Call.fail, Call.finish, Call.handed]
      have hall : P.installAll c.txn (f :: fs) = (Q, .error e) := by rw [Pool.installAll, hinstall]
      rw [hstep, hall]
      exact .here ⟨rfl, rfl, rfl⟩
    · have hstep : step ⟨P, c.goOn (.installing (f :: fs)), got⟩ = ⟨Q, c.goOn (.installing fs), got⟩ := by
        simp [step, Call.step, Call.goOn, hinstall, Call.handed]
      have hall : P.installAll c.txn (f :: fs) = Q.installAll c.txn fs := by rw [Pool.installAll, hinstall]
      rw [hstep, hall]
      exact ih Q c got

end Solo

end PageEngine
