import PageEngine.Proofs.Locking.Frame

/-!
# `Proofs/Locking/Retries.lean` — only a new call is aborted

A call that was put to sleep asks again each time it is woken, and each time the search for a cycle
starts over, in edges that were drawn from other holders than before. In between others were granted
locks, shared some, made themselves owners and let go. A cycle through the sleeper would need one of
them to wait for a page while it is waited for, and that one would have been aborted on its own call:

> **an attempt of a call that slept before is granted or sleeps again.**

`Callers.Logged` is the run relation with all attempts written down, the latest first. The attempt that
a transaction makes after one that slept belongs to the same call, as a blocked transaction makes no
other; so the log says of each attempt whether its call slept before.
-/

set_option autoImplicit false

namespace PageEngine

open Std

namespace Callers

/-! ## Runs with their attempts -/

/-- An attempt to lock a page, and what came of it. -/
structure Try where
  txn : TxnId
  page : PageId
  mode : Mode
  outcome : Attempt

/-- The call that an attempt leaves blocked. -/
def Try.leaves (a : Try) : Option BlockedCall :=
  match a.outcome with
  | .sleeps k => some ⟨k, a.page, a.mode⟩
  | _ => none

/-- The attempt that `t` makes when it asks for `p` in mode `m`. -/
def tryOf (w : Callers) (g : WaitGraph) (t : TxnId) (p : PageId) (m : Mode) : Try :=
  ⟨t, p, m, (w.table.attemptWith g p t m).2.2⟩

/-- The latest attempt of `t` in a log. -/
def latest (t : TxnId) (log : List Try) : Option Try := log.find? fun a => a.txn == t

/-- `ReachableWith`, and the log of the attempts that were made on the way. -/
inductive Logged : Callers → WaitGraph → List Try → Prop
  | start : Logged start {} []
  | acquire {w : Callers} {g : WaitGraph} {log : List Try} {t : TxnId} (p : PageId) (m : Mode) :
      Logged w g log → w.blocked t = none →
      Logged (w.askWith g t p m).1 (w.askWith g t p m).2 (w.tryOf g t p m :: log)
  | retry {w : Callers} {g : WaitGraph} {log : List Try} {t : TxnId} {c : BlockedCall} :
      Logged w g log → w.blocked t = some c → w.table.sleeps c.ticket = false →
      Logged (w.askWith g t c.page c.mode).1 (w.askWith g t c.page c.mode).2
        (w.tryOf g t c.page c.mode :: log)
  | release {w : Callers} {g : WaitGraph} {log : List Try} {t : TxnId} (p : PageId) :
      Logged w g log → w.blocked t = none →
      Logged { w with table := (w.table.release p t).1 } g log
  | releaseAll {w : Callers} {g : WaitGraph} {log : List Try} {t : TxnId} :
      Logged w g log → w.blocked t = none →
      Logged { w with table := (w.table.releaseAll t).1 } (g.clear t) log
  | edges {w : Callers} {g : WaitGraph} {log : List Try} :
      Logged w g log → Logged w (w.table.redraw g) log

theorem Logged.reachable {w : Callers} {g : WaitGraph} {log : List Try} (h : Logged w g log) :
    ReachableWith w g := by
  induction h with
  | start => exact .start
  | acquire p m _ hidle ih => exact .acquire p m ih hidle
  | retry _ hc hwoken ih => exact .retry ih hc hwoken
  | release p _ hidle ih => exact .release p ih hidle
  | releaseAll _ hidle ih => exact .releaseAll ih hidle
  | edges _ ih => exact .edges ih

/-! ## Who is blocked, by the log -/

@[simp] theorem txn_tryOf (w : Callers) (g : WaitGraph) (t : TxnId) (p : PageId) (m : Mode) :
    (w.tryOf g t p m).txn = t := rfl

theorem latest_cons (t : TxnId) (a : Try) (log : List Try) :
    latest t (a :: log) = if a.txn = t then some a else latest t log := by
  by_cases ha : a.txn = t
  · simp [latest, ha]
  · have hbeq : (a.txn == t) = false := beq_eq_false_iff_ne.2 ha
    simp [latest, ha, hbeq]

/-- After an attempt its transaction has the blocked call that the attempt leaves. -/
theorem blocked_askWith (w : Callers) (g : WaitGraph) (t : TxnId) (p : PageId) (m : Mode) :
    (w.askWith g t p m).1.blocked = Function.update w.blocked t (w.tryOf g t p m).leaves := by
  unfold askWith tryOf Try.leaves
  rcases w.table.attemptWith g p t m with ⟨L, g', a⟩
  cases a with
  | granted => rfl
  | sleeps k => rfl
  | deadlock => rfl

/-- **The blocked calls are those that the latest attempts left.** -/
theorem Logged.blocked {w : Callers} {g : WaitGraph} {log : List Try} (h : Logged w g log)
    (t : TxnId) : w.blocked t = (latest t log).bind Try.leaves := by
  have hask : ∀ {w : Callers} {g : WaitGraph} {log : List Try} (u : TxnId) (p : PageId) (m : Mode),
      w.blocked t = (latest t log).bind Try.leaves →
      (w.askWith g u p m).1.blocked t =
        (latest t (w.tryOf g u p m :: log)).bind Try.leaves := by
    intro w g log u p m ih
    rw [blocked_askWith, latest_cons, txn_tryOf]
    by_cases hu : u = t
    · rw [if_pos hu, hu, Function.update_self]
      rfl
    · rw [if_neg hu, Function.update_of_ne (Ne.symm hu), ih]
  induction h with
  | start => rfl
  | acquire p m _ _ ih => exact hask _ p m ih
  | retry _ _ _ ih => exact hask _ _ _ ih
  | release _ _ _ ih => exact ih
  | releaseAll _ _ ih => exact ih
  | edges _ ih => exact ih

/-! ## Attempts of a call that slept -/

/-- **A blocked call that asks again is granted or sleeps again**, in whatever state it does so. -/
theorem ReachableWith.attempt_of_blocked {w : Callers} {g : WaitGraph} (h : ReachableWith w g)
    {t : TxnId} {c : BlockedCall} (hc : w.blocked t = some c) :
    (w.tryOf g t c.page c.mode).outcome = .granted ∨
      ∃ k, (w.tryOf g t c.page c.mode).outcome = .sleeps k := by
  obtain ⟨hreach, hcov⟩ := h.reachable
  have hwait : w.table.waiting[t]? = some c.page := by
    rw [hreach.inv.waiting, hc]
    rfl
  have hsame : (w.tryOf g t c.page c.mode).outcome = (w.table.attempt c.page t c.mode).2 := by
    obtain ⟨g', heq, -⟩ := LockTable.attemptWith_eq hcov c.page t c.mode
    exact congrArg (fun r => r.2.2) heq
  rw [hsame]
  cases hout : (w.table.attempt c.page t c.mode).2 with
  | granted => exact .inl rfl
  | sleeps k => exact .inr ⟨k, rfl⟩
  | deadlock => exact absurd hout (LockTable.attempt_of_waiting hreach.acyclic_table hwait)

/-- An attempt `b` made after the attempts of `earlier` is one of the call that slept then, and did not
end in a deadlock. -/
def Resumes (earlier : List Try) (b : Try) : Prop :=
  ∀ a k, latest b.txn earlier = some a → a.outcome = .sleeps k →
    b.page = a.page ∧ b.mode = a.mode ∧ (b.outcome = .granted ∨ ∃ k', b.outcome = .sleeps k')

/-- The next attempt of whoever may ask. -/
theorem Logged.resumes {w : Callers} {g : WaitGraph} {log : List Try} (h : Logged w g log)
    {t : TxnId} {p : PageId} {m : Mode} (hmay : w.MayAsk t p m) :
    Resumes log (w.tryOf g t p m) := by
  intro a k ha hsleeps
  have hblocked : w.blocked t = some ⟨k, a.page, a.mode⟩ := by
    rw [h.blocked, show latest t log = some a from ha, Option.bind_some, Try.leaves, hsleeps]
  rcases hmay with hidle | ⟨c, hc, -, rfl, rfl⟩
  · rw [hidle] at hblocked
    cases hblocked
  · obtain rfl : c = ⟨k, a.page, a.mode⟩ := Option.some.inj (hc.symm.trans hblocked)
    exact ⟨rfl, rfl, h.reachable.attempt_of_blocked hblocked⟩

/-- **Only the requester of a new call is a victim.** In every run, an attempt whose transaction was put
to sleep by its previous one is an attempt for the same page in the same mode, and it was granted or
slept again. The same holds of every blocked call, woken or not, that asks again in the state that the
run has come to. -/
theorem sleeper_never_aborted {w : Callers} {g : WaitGraph} {log : List Try} (h : Logged w g log) :
    (∀ later earlier b, log = later ++ b :: earlier → Resumes earlier b) ∧
    ∀ t c, w.blocked t = some c →
      (w.tryOf g t c.page c.mode).outcome = .granted ∨
      ∃ k, (w.tryOf g t c.page c.mode).outcome = .sleeps k := by
  refine ⟨?_, fun t c hc => h.reachable.attempt_of_blocked hc⟩
  have hcons : ∀ {log : List Try} {d : Try}, Resumes log d →
      (∀ later earlier b, log = later ++ b :: earlier → Resumes earlier b) →
      ∀ later earlier b, d :: log = later ++ b :: earlier → Resumes earlier b := by
    intro log d hd ih later earlier b hsplit
    cases later with
    | nil =>
      obtain ⟨rfl, rfl⟩ := List.cons.inj hsplit
      exact hd
    | cons e later => exact ih later earlier b (List.cons.inj hsplit).2
  induction h with
  | start =>
    intro later earlier b hsplit
    simp at hsplit
  | acquire p m hlog hidle ih => exact hcons (hlog.resumes (.inl hidle)) ih
  | retry hlog hc hwoken ih => exact hcons (hlog.resumes (.inr ⟨_, hc, hwoken, rfl, rfl⟩)) ih
  | release _ _ _ ih => exact ih
  | releaseAll _ _ ih => exact ih
  | edges _ ih => exact ih

/-- A reader was woken when the owner of the page let go, and another owner came before it. -/
def wokenReader : Callers × WaitGraph :=
  let owned := start.askWith {} ⟨1⟩ ⟨⟨1⟩, 0⟩ .exclusive
  let asleep := owned.1.askWith owned.2 ⟨2⟩ ⟨⟨1⟩, 0⟩ .shared
  let free : Callers := { asleep.1 with table := (asleep.1.table.release ⟨⟨1⟩, 0⟩ ⟨1⟩).1 }
  free.askWith asleep.2 ⟨3⟩ ⟨⟨1⟩, 0⟩ .exclusive

/-- It asks again, and sleeps again. -/
theorem sleeper_never_aborted_wokenReader :
    ∃ log, Logged wokenReader.1 wokenReader.2 log ∧
      (latest ⟨2⟩ log).map Try.outcome = some (.sleeps 0) ∧
      wokenReader.1.MayAsk ⟨2⟩ ⟨⟨1⟩, 0⟩ .shared ∧
      (wokenReader.1.tryOf wokenReader.2 ⟨2⟩ ⟨⟨1⟩, 0⟩ .shared).outcome = .sleeps 1 ∧
      Resumes log (wokenReader.1.tryOf wokenReader.2 ⟨2⟩ ⟨⟨1⟩, 0⟩ .shared) := by
  have hlog := (Logged.release ⟨⟨1⟩, 0⟩ (Logged.acquire (t := ⟨2⟩) ⟨⟨1⟩, 0⟩ .shared
    (Logged.acquire (t := ⟨1⟩) ⟨⟨1⟩, 0⟩ .exclusive .start rfl) (by cbv)) (t := ⟨1⟩) (by cbv)).acquire
      (t := ⟨3⟩) ⟨⟨1⟩, 0⟩ .exclusive (by cbv)
  have hblocked : wokenReader.1.blocked ⟨2⟩ = some ⟨0, ⟨⟨1⟩, 0⟩, .shared⟩ := by cbv
  have hwoken : wokenReader.1.table.sleeps 0 = false := by cbv
  have hretry := Logged.retry (w := wokenReader.1) (g := wokenReader.2) hlog hblocked hwoken
  exact ⟨_, hlog, by cbv, .inr ⟨_, hblocked, hwoken, rfl, rfl⟩, by cbv,
    (sleeper_never_aborted hretry).1 [] _ _ rfl⟩

end Callers

end PageEngine
