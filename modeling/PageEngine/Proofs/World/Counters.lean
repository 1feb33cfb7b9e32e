import PageEngine.Proofs.Pool.Metering
import PageEngine.Proofs.World.Basic

/-!
# `Proofs/World/Counters.lean` — the counters account for every event

Calls of any transactions are served section by section, any number of them at a time, while the files, the
stores, the locks and the images change around them as they like. A `Desk` writes down which calls were begun
and what happened, without a look at the counters; then the counters say the same:

> **in every state the counters are the numbers of what happened**: lookups of pages whose lock was granted,
> writes that succeeded, ended transactions, pages that came into the cache and that left it, whatever failed
> (`Desk.counters_account`).

A page is looked up in a section of its own after its lock was granted. So a call that stands between the two
has its lock and is not counted yet; where every call has its result or sleeps there is none. What happens at
the cache in one operation, over any storage, is the subject of `Proofs/Pool/Metering.lean`.
-/

set_option autoImplicit false

namespace PageEngine

open Std

/-! ## Sections that are counted -/

/-- Whether a call looks a page up next. -/
def Activity.looks : Activity → Bool
  | .fetching .. => true
  | _ => false

/-- The end of a transaction that a call is on its way to count. -/
def Activity.ends : Activity → Option Bool
  | .start (.complete commit) => some commit
  | .releasing commit _ => some commit
  | .ending commit _ => some commit
  | _ => none

/-- The next section is neither a lookup nor part of the end of a transaction. -/
def Activity.Plain (a : Activity) : Prop := a.looks = false ∧ a.ends = none

/-- Whether the lock is wanted to get the page, be it for the client, for a scan, an insert or a delete. -/
def Use.getsPage : Use → Bool
  | .holdLock => false
  | _ => true

namespace Call

/-- Whether the next section is an attempt to lock a page to get it, and the lock is granted. -/
def isGranted (c : Call) (P : Pool Tables) : Bool :=
  match c.activity with
  | .locking p m use => use.getsPage && (P.locks.attempt p c.txn m).2 = .granted
  | .sleeping ticket p m use =>
    !P.locks.sleeps ticket && use.getsPage && (P.locks.attempt p c.txn m).2 = .granted
  | _ => false

/-- The operation of the cache that the next section is, if it is one. -/
def op (c : Call) : Option (CacheOp Tables) :=
  match c.activity with
  | .start (.complete commit) => some (.settle c.txn commit)
  | .fetching p _ => some (.fetch p)
  | .installing (f :: _) => some (.install c.txn f)
  | .ending commit _ => some (.countEnd commit)
  | _ => none

/-- What happens at the cache in the next section. -/
def traffic (c : Call) (P : Pool Tables) : Traffic := (c.op.map (·.traffic P)).getD {}

/-! ### Sections that count nothing -/

/-- A section leaves the cache and the counters alone and leads on to one that is neither a lookup nor part
of the end of a transaction. -/
structure Quiet (P : Pool Tables) (r : Pool Tables × Call) : Prop where
  pool : Pool.Wrote 0 P r.1
  activity : r.2.activity.Plain

variable {c : Call} {P : Pool Tables}

theorem Quiet.same (h : c.activity.Plain) : Quiet P (P, c) := ⟨Pool.wrote_nothing rfl rfl, h⟩

theorem plain_changed (c : Call) (fs : List FrameId) : (c.changed fs).activity.Plain := by
  unfold changed
  split <;> exact ⟨rfl, rfl⟩

theorem plain_tryNext (c : Call) (P : Pool Tables) (i : Insertion) : (c.tryNext P i).activity.Plain := by
  unfold tryNext
  split <;> exact ⟨rfl, rfl⟩

theorem plain_collectNext (c : Call) (h : HeapFile) (pages next : Nat) (rows : List Tuple) :
    (c.collectNext h pages next rows).activity.Plain := by
  unfold collectNext
  split <;> exact ⟨rfl, rfl⟩

theorem wrote_touchFresh (h : HeapFile) : ∀ (ns : List Nat) (P : Pool Tables) (fs : List FrameId),
    Pool.Wrote 0 P (touchFresh P h ns fs).1 := by
  intro ns
  induction ns with
  | nil => exact fun P fs => Pool.wrote_nothing rfl rfl
  | cons n ns ih =>
    intro P fs
    unfold touchFresh
    split
    · exact Pool.wrote_nothing rfl rfl
    · rename_i x _
      have hmade := ih (P.addFrame (x.withData (x.data.setByte (pageSize - 1)
        (x.data.byte (pageSize - 1) + 1)))) (fs ++ [P.nextFrame])
      exact ⟨hmade.resident, hmade.counters⟩

theorem touch_quiet (c : Call) (P : Pool Tables) (h : HeapFile) (ns : List Nat) : Quiet P (c.touch P h ns) := by
  have hmade := wrote_touchFresh h ns P []
  unfold touch
  split
  · rename_i hQ
    rw [hQ] at hmade
    exact ⟨hmade, rfl, rfl⟩
  · rename_i hQ
    rw [hQ] at hmade
    exact ⟨hmade, c.plain_changed _⟩

theorem startInsert_quiet (c : Call) (P : Pool Tables) (s : Store) : Quiet P (c.startInsert P s) := by
  unfold startInsert
  split
  · split <;> exact .same ⟨rfl, rfl⟩
  · exact c.touch_quiet P _ _

theorem startDelete_quiet (c : Call) (P : Pool Tables) (r : RecordId) (s : Store) :
    Quiet P (c.startDelete P r s) := by
  unfold startDelete
  split
  · repeat' split
    all_goals exact .same ⟨rfl, rfl⟩
  · exact c.touch_quiet P _ _

theorem start_quiet (c : Call) (P : Pool Tables) {r : Request} (hr : ∀ commit, r ≠ .complete commit) :
    Quiet P (c.start P r) := by
  cases r with
  | lock p m => exact .same ⟨rfl, rfl⟩
  | get p a => exact .same ⟨rfl, rfl⟩
  | scan h =>
    simp only [start]
    split
    · exact .same ⟨rfl, rfl⟩
    · exact .same (c.plain_collectNext h _ _ _)
  | insert table tuple =>
    simp only [start]
    split
    · exact .same ⟨rfl, rfl⟩
    · exact c.startInsert_quiet P _
  | delete tuple =>
    simp only [start]
    split
    · exact .same ⟨rfl, rfl⟩
    · split
      · exact .same ⟨rfl, rfl⟩
      · exact c.startDelete_quiet P _ _
  | insertInto s tuple => exact c.startInsert_quiet P s
  | deleteFrom s tuple =>
    simp only [start]
    split
    · exact c.startDelete_quiet P _ _
    · exact .same ⟨rfl, rfl⟩
    · exact c.touch_quiet P _ _
  | complete commit => exact absurd rfl (hr commit)

theorem useFrame_quiet (c : Call) (P : Pool Tables) (p : PageId) (f : FrameId) (use : Use) :
    Quiet P (c.useFrame P p f use) := by
  cases use with
  | holdLock => exact .same ⟨rfl, rfl⟩
  | deliver => exact .same ⟨rfl, rfl⟩
  | collect h pages next rows => exact .same (c.plain_collectNext h _ _ _)
  | place i =>
    simp only [useFrame, place]
    split
    · exact ⟨Pool.wrote_nothing rfl rfl, plain_changed _ _⟩
    · split
      · exact .same (c.plain_tryNext P _)
      · exact .same ⟨rfl, rfl⟩
  | remove h slot =>
    simp only [useFrame, remove]
    split
    · exact ⟨Pool.wrote_nothing rfl rfl, plain_changed _ _⟩
    · exact .same ⟨rfl, rfl⟩

/-! ### Every section -/

/-- What a section does for the books: its pool counts what happened, its call looks a page up next if it was
granted the lock for it, and it stays on its way to the end of a transaction until that is counted. -/
structure Accounts (c : Call) (P : Pool Tables) (r : Pool Tables × Call) : Prop where
  counts : Pool.Counts (c.traffic P) P r.1
  looks : r.2.activity.looks = c.isGranted P
  ends : r.2.activity.ends = c.activity.ends ∨
    ∃ commit s, c.activity = .ending commit s ∧ r.2.result?.isSome

theorem Quiet.accounts {r : Pool Tables × Call} (h : Quiet P r)
    (hc : c.op = none ∧ c.isGranted P = false ∧ c.activity.ends = none) : Accounts c P r where
  counts := by
    rw [traffic, hc.1]
    exact h.pool.counts_nothing
  looks := by rw [h.activity.1, hc.2.1]
  ends := .inl (h.activity.2.trans hc.2.2.symm)

/-- An attempt to lock a page leads on to looking it up if the page is wanted and the lock is granted. -/
theorem attemptLock_accounts {p : PageId} {m : Mode} {use : Use} (hop : c.op = none)
    (hends : c.activity.ends = none)
    (hgranted : c.isGranted P = (use.getsPage && (P.locks.attempt p c.txn m).2 = .granted)) :
    Accounts c P (c.attemptLock P p m use) := by
  have hcounts : ∀ L, Pool.Counts (c.traffic P) P (P.withLocks L) := fun L => by
    rw [traffic, hop]
    exact (Pool.wrote_nothing (P := P) (Q := P.withLocks L) rfl rfl).counts_nothing
  unfold attemptLock
  rcases hL : P.locks.attempt p c.txn m with ⟨L, _ | ticket | _⟩
  all_goals
    rw [hL] at hgranted
    cases use
    all_goals exact ⟨hcounts L, hgranted.symm, .inl hends.symm⟩

theorem accounts_of_op {r : Pool Tables × Call} {o : CacheOp Tables} (hop : c.op = some o)
    (hpool : r.1 = o.run P) (hlooks : r.2.activity.looks = c.isGranted P)
    (hends : r.2.activity.ends = c.activity.ends) : Accounts c P r where
  counts := by
    rw [traffic, hop, hpool]
    exact CacheOp.counts_run P o
  looks := hlooks
  ends := .inl hends

theorem start_accounts {r : Request} (ha : c.activity = .start r) : Accounts c P (c.start P r) := by
  have hgranted : c.isGranted P = false := by rw [isGranted, ha]
  cases r with
  | complete commit =>
    exact accounts_of_op (o := .settle c.txn commit) (by rw [op, ha]) rfl hgranted.symm (by rw [ha]; rfl)
  | _ =>
    refine (c.start_quiet P (by nofun)).accounts ⟨?_, hgranted, ?_⟩
    · rw [op, ha]
    · rw [ha]
      rfl

/-- **Every section counts what happens in it.** -/
theorem step_accounts (c : Call) (P : Pool Tables) : Accounts c P (c.step P) := by
  unfold step
  split
  · rename_i ha
    exact start_accounts ha
  · rename_i p m use ha
    exact attemptLock_accounts (by rw [op, ha]) (by rw [ha]; rfl) (by rw [isGranted, ha])
  · rename_i ticket p m use ha
    split
    · rename_i hsleeps
      exact (Quiet.same (by rw [ha]; exact ⟨rfl, rfl⟩)).accounts
        (by simp [op, isGranted, Activity.ends, ha, hsleeps])
    · rename_i hwoken
      exact attemptLock_accounts (by rw [op, ha]) (by rw [ha]; rfl) (by simp [isGranted, ha, hwoken])
  · rename_i p use ha
    have hop : c.op = some (.fetch p) := by rw [op, ha]
    have hc : c.isGranted P = false ∧ c.activity.ends = none := by simp [isGranted, Activity.ends, ha]
    split
    all_goals
      rename_i hQ
      exact accounts_of_op hop (congrArg Prod.fst hQ).symm hc.1.symm hc.2.symm
  · rename_i p f use ha
    exact (c.useFrame_quiet P p f use).accounts (by simp [op, isGranted, Activity.ends, ha])
  · rename_i i ha
    have hdropped : Pool.Wrote 0 P (P.releasePage i.page c.txn).1 := Pool.wrote_nothing rfl rfl
    refine Quiet.accounts ?_ (by simp [op, isGranted, Activity.ends, ha])
    split
    · rename_i hQ
      rw [hQ] at hdropped
      exact ⟨hdropped, rfl, rfl⟩
    · rename_i hQ
      rw [hQ] at hdropped
      exact ⟨hdropped, plain_tryNext _ _ _⟩
  · rename_i i ha
    refine Quiet.accounts ?_ (by simp [op, isGranted, Activity.ends, ha])
    split
    · exact .same ⟨rfl, rfl⟩
    · exact .same (plain_tryNext _ _ _)
  · rename_i i ha
    refine Quiet.accounts ?_ (by simp [op, isGranted, Activity.ends, ha])
    split <;> exact ⟨Pool.wrote_nothing rfl rfl, rfl, rfl⟩
  · rename_i ha
    exact (Quiet.same ⟨rfl, rfl⟩).accounts (by simp [op, isGranted, Activity.ends, ha])
  · rename_i f fs ha
    have hop : c.op = some (.install c.txn f) := by rw [op, ha]
    have hc : c.isGranted P = false ∧ c.activity.ends = none := by simp [isGranted, Activity.ends, ha]
    split
    all_goals
      rename_i hQ
      exact accounts_of_op hop (congrArg Prod.fst hQ).symm hc.1.symm hc.2.symm
  · rename_i commit pages ha
    have hreleased : Pool.Wrote 0 P (P.releaseAll c.txn).1 := Pool.wrote_nothing rfl rfl
    refine ⟨?_, by rw [isGranted, ha]; rfl, .inl (by rw [ha]; rfl)⟩
    rw [traffic, op, ha]
    exact hreleased.counts_nothing
  · rename_i commit s ha
    refine ⟨?_, by rw [isGranted, ha]; rfl, .inr ⟨commit, s, ha, rfl⟩⟩
    rw [traffic, op, ha]
    exact CacheOp.counts_run P (.countEnd commit)
  · rename_i res ha
    exact (Quiet.same (by rw [ha]; exact ⟨rfl, rfl⟩)).accounts (by simp [op, isGranted, Activity.ends, ha])

end Call

/-! ## Desks -/

/-- What is asked for: a request, or to take in the images that a store of another kind has changed. -/
inductive Demand where
  | request (r : Request)
  | handIn (fs : List FrameId)

namespace Demand

/-- The call that serves a demand of a transaction. -/
def call (t : TxnId) : Demand → Call
  | request r => Call.ofRequest t r
  | handIn fs => { txn := t, activity := .installing fs }

/-- The end of a transaction that is asked for. -/
def ends : Demand → Option Bool
  | request (.complete commit) => some commit
  | _ => none

theorem plain_call (t : TxnId) (o : Demand) : (o.call t).activity.looks = false ∧
    (o.call t).result? = none ∧ (o.call t).activity.ends = o.ends := by
  cases o with
  | handIn fs => exact ⟨rfl, rfl, rfl⟩
  | request r => cases r <;> exact ⟨rfl, rfl, rfl⟩

end Demand

/-- A call with what was asked for. -/
structure Errand where
  demand : Demand
  call : Call

namespace Errand

/-- Whether this was the end of a transaction and is done. -/
def isEnd (commit : Bool) (e : Errand) : Bool := e.demand.ends = some commit && e.call.result?.isSome

/-- A call that is not done is on its way to the end that was asked for, if one was. -/
def Proper (e : Errand) : Prop := e.call.result? = none → e.call.activity.ends = e.demand.ends

/-- Runs the next section of the call. -/
def step (e : Errand) (P : Pool Tables) : Errand := { e with call := (e.call.step P).2 }

end Errand

/-- A pool, the calls that were ever begun, and what has happened. -/
structure Desk where
  pool : Pool Tables
  errands : List Errand
  /-- How often a call was granted the lock of a page that it wants to get. -/
  granted : Nat
  traffic : Traffic

namespace Desk

/-- A pool that nobody has called yet. -/
def start (P : Pool Tables) : Desk := ⟨P, [], 0, {}⟩

/-- A call is begun. -/
def take (d : Desk) (t : TxnId) (o : Demand) : Desk := { d with errands := d.errands ++ [⟨o, o.call t⟩] }

/-- The call at a place runs its next section. -/
def advance (d : Desk) (i : Nat) : Desk :=
  match d.errands[i]? with
  | none => d
  | some e =>
    { pool := (e.call.step d.pool).1
      errands := d.errands.set i (e.step d.pool)
      granted := d.granted + if e.call.isGranted d.pool then 1 else 0
      traffic := d.traffic + e.call.traffic d.pool }

/-- An operation of the cache that is no part of a call. -/
def around (d : Desk) (o : CacheOp Tables) : Desk :=
  { d with pool := o.run d.pool, traffic := d.traffic + o.traffic d.pool }

end Desk

/-- What may happen around the calls: pages are written early or discarded, and the locks, the images and the
storage change in any way. -/
def CacheOp.Around {δ : Type} : CacheOp δ → Prop
  | .fetch _ => False
  | .install .. => False
  | .countEnd _ => False
  | _ => True

namespace Desk

/-- The desks to which a pool leads. -/
inductive Reachable (P : Pool Tables) : Desk → Prop
  | start : Reachable P (start P)
  | take {d : Desk} (t : TxnId) (o : Demand) : Reachable P d → Reachable P (d.take t o)
  | advance {d : Desk} (i : Nat) : Reachable P d → Reachable P (d.advance i)
  | around {d : Desk} {o : CacheOp Tables} (ho : o.Around) : Reachable P d → Reachable P (d.around o)

/-- The calls that were granted the lock of a page and have not looked it up yet. -/
def looking (d : Desk) : Nat := d.errands.countP fun e => e.call.activity.looks

/-- The commits or the aborts that are done. -/
def ended (d : Desk) (commit : Bool) : Nat := d.errands.countP (·.isEnd commit)

/-- Every call has its result or sleeps for a lock. -/
def Settled (d : Desk) : Prop := ∀ e ∈ d.errands, ¬e.call.isReady d.pool

/-- The counters say what has happened. -/
structure Balanced (d : Desk) : Prop where
  /-- Every granted lock leads to a lookup, which is a hit or a miss, also if the page cannot be read. -/
  lookups : d.pool.counters.hits + d.pool.counters.misses + d.looking = d.granted
  settled : d.Settled → d.pool.counters.hits + d.pool.counters.misses = d.granted
  writebacks : d.pool.counters.writebacks = d.traffic.written
  /-- A commit that fails is counted as well. -/
  commits : d.pool.counters.commits = d.ended true
  aborts : d.pool.counters.aborts = d.ended false
  evictions : d.pool.counters.evictions = d.traffic.evicted
  /-- Whatever came into the cache is there, unless it was evicted or discarded. -/
  resident : d.pool.resident.size + d.pool.counters.evictions + d.traffic.discarded =
    d.traffic.faults + d.traffic.installed

end Desk

/-! ## What one step keeps -/

section Step

variable {P : Pool Tables} {c : Call} {e : Errand} {commit : Bool}

/-- The commits or the aborts among what happened. -/
def Traffic.ends (τ : Traffic) (commit : Bool) : Nat := if commit then τ.commits else τ.aborts

theorem Traffic.ends_add (σ τ : Traffic) (commit : Bool) :
    (σ + τ).ends commit = σ.ends commit + τ.ends commit := by
  cases commit <;> rfl

/-- The end of a transaction that the next section counts. -/
def Activity.countsEnd : Activity → Option Bool
  | .ending commit _ => some commit
  | _ => none

theorem Call.lookups_traffic (c : Call) (P : Pool Tables) :
    (c.traffic P).lookups = if c.activity.looks then 1 else 0 := by
  unfold traffic op
  cases c.activity with
  | start r => cases r <;> rfl
  | installing fs => cases fs <;> rfl
  | _ => rfl

theorem Call.ends_traffic (c : Call) (P : Pool Tables) (commit : Bool) :
    (c.traffic P).ends commit = if c.activity.countsEnd = some commit then 1 else 0 := by
  unfold traffic op
  cases c.activity with
  | start r => cases r <;> cases commit <;> rfl
  | installing fs => cases fs <;> cases commit <;> rfl
  | ending b s => cases b <;> cases commit <;> rfl
  | _ => cases commit <;> rfl

theorem Call.step_of_done {s : Except Error Answer} (h : c.result? = some s) : c.step P = (P, c) := by
  unfold Call.step
  rw [result?_eq_some.1 h]

theorem Call.ends_of_done (h : c.result?.isSome) : c.activity.ends = none := by
  obtain ⟨s, hs⟩ := Option.isSome_iff_exists.1 h
  rw [result?_eq_some.1 hs]
  rfl

theorem Errand.step_of_done (h : e.call.result?.isSome) (P : Pool Tables) : e.step P = e := by
  obtain ⟨s, hs⟩ := Option.isSome_iff_exists.1 h
  rw [step, Call.step_of_done hs]

theorem Errand.Proper.step (h : e.Proper) (P : Pool Tables) : (e.step P).Proper := by
  intro hlive
  have hbefore : e.call.result? = none := by
    by_contra hdone
    rw [Errand.step_of_done (Option.isSome_iff_ne_none.2 hdone)] at hlive
    exact hdone hlive
  rcases (e.call.step_accounts P).ends with hends | ⟨commit, s, -, hdone⟩
  · exact hends.trans (h hbefore)
  · exact absurd hlive (Option.isSome_iff_ne_none.1 hdone)

theorem Errand.isEnd_of_live (h : e.call.result? = none) (commit : Bool) : e.isEnd commit = false := by
  simp only [isEnd, h, Option.isSome_none, Bool.and_false]

/-- The section that counts an end is the last one. -/
theorem Errand.isEnd_of_counting (h : e.Proper) {b : Bool} {s : Except Error Unit}
    (ha : e.call.activity = .ending b s) (P : Pool Tables) (commit : Bool) :
    (e.step P).isEnd commit = decide (b = commit) := by
  have hends : some b = e.demand.ends := by
    rw [← h (by rw [Call.result?, ha]), ha]
    rfl
  have hresult : (e.call.step P).2.result?.isSome := by
    unfold Call.step
    rw [ha]
    rfl
  simp only [isEnd, step, hresult, ← hends, Option.some.injEq, Bool.and_true]

/-- No other section is the last one of an end. -/
theorem Errand.isEnd_of_not_counting (h : e.Proper) (hlive : e.call.result? = none)
    (ha : ∀ b s, e.call.activity ≠ .ending b s) (P : Pool Tables) (commit : Bool) :
    (e.step P).isEnd commit = false := by
  by_contra hend
  simp only [isEnd, Bool.not_eq_false, Bool.and_eq_true, decide_eq_true_eq] at hend
  obtain ⟨hdemand, hresult⟩ := hend
  have hnone : (e.call.step P).2.activity.ends = none := Call.ends_of_done hresult
  rcases (e.call.step_accounts P).ends with hkept | ⟨b, s, hb, -⟩
  · rw [hnone, h hlive] at hkept
    cases hkept.trans hdemand
  · exact ha b s hb

/-- An end is done with the section that counts it. -/
theorem Errand.isEnd_step (h : e.Proper) (P : Pool Tables) (commit : Bool) :
    (if (e.step P).isEnd commit then 1 else 0) =
      (if e.isEnd commit then 1 else 0) + if e.call.activity.countsEnd = some commit then 1 else 0 := by
  cases hres : e.call.result? with
  | some s =>
    -- Nothing happens any more.
    rw [step_of_done (by rw [hres]; rfl), Call.result?_eq_some.1 hres]
    rfl
  | none =>
    rw [isEnd_of_live hres]
    cases ha : e.call.activity with
    | ending b s =>
      rw [isEnd_of_counting h ha]
      simp [Activity.countsEnd]
    | _ =>
      rw [isEnd_of_not_counting h hres (by rw [ha]; nofun)]
      rfl

theorem countP_set_add {α : Type} (p : α → Bool) {xs : List α} {i : Nat} {x : α} (h : xs[i]? = some x)
    (y : α) : (xs.set i y).countP p + (if p x then 1 else 0) = xs.countP p + if p y then 1 else 0 := by
  obtain ⟨hlt, rfl⟩ := List.getElem?_eq_some_iff.1 h
  have hle := List.boole_getElem_le_countP (p := p) hlt
  rw [List.countP_set hlt]
  omega

end Step

/-! ## Runs -/

namespace Desk

/-- What holds of a desk at any time, with the pool that it was opened with. -/
structure Kept (P : Pool Tables) (d : Desk) : Prop where
  counts : Pool.Counts d.traffic P d.pool
  lookups : d.traffic.lookups + d.looking = d.granted
  ends : ∀ commit, d.traffic.ends commit = d.ended commit
  proper : ∀ e ∈ d.errands, e.Proper

variable {P : Pool Tables} {d : Desk}

theorem kept_start (P : Pool Tables) : Kept P (start P) where
  counts := (Pool.wrote_nothing rfl rfl).counts_nothing
  lookups := rfl
  ends commit := by cases commit <;> rfl
  proper e he := absurd he List.not_mem_nil

theorem Kept.take (h : Kept P d) (t : TxnId) (o : Demand) : Kept P (d.take t o) := by
  obtain ⟨hlooks, hlive, hends⟩ := o.plain_call t
  refine ⟨h.counts, ?_, fun commit => ?_, fun e he => ?_⟩
  · rw [looking, Desk.take, List.countP_append, List.countP_singleton, hlooks]
    exact h.lookups
  · rw [ended, Desk.take, List.countP_append, List.countP_singleton, Errand.isEnd_of_live hlive]
    exact h.ends commit
  · rcases List.mem_append.1 he with hmem | hmem
    · exact h.proper e hmem
    · rw [List.mem_singleton.1 hmem]
      exact fun _ => hends

/-- What happens around the calls is no lookup and no end of a transaction. -/
theorem around_traffic {o : CacheOp Tables} (ho : o.Around) (P : Pool Tables) :
    (o.traffic P).lookups = 0 ∧ ∀ commit, (o.traffic P).ends commit = 0 := by
  cases o with
  | fetch p => exact ho.elim
  | install t f => exact ho.elim
  | countEnd b => exact ho.elim
  | _ => exact ⟨rfl, fun commit => by cases commit <;> rfl⟩

theorem Kept.around (h : Kept P d) {o : CacheOp Tables} (ho : o.Around) : Kept P (d.around o) := by
  obtain ⟨hlookups, hends⟩ := around_traffic ho d.pool
  refine ⟨h.counts.trans (CacheOp.counts_run d.pool o), ?_, fun commit => ?_, h.proper⟩
  · show d.traffic.lookups + (o.traffic d.pool).lookups + d.looking = d.granted
    rw [hlookups]
    exact h.lookups
  · show (d.traffic + o.traffic d.pool).ends commit = d.ended commit
    rw [Traffic.ends_add, hends]
    exact h.ends commit

theorem Kept.advance (h : Kept P d) (i : Nat) : Kept P (d.advance i) := by
  unfold Desk.advance
  split
  · exact h
  · rename_i e he
    have hproper := h.proper e (List.mem_of_getElem? he)
    have hsection := e.call.step_accounts d.pool
    refine ⟨h.counts.trans hsection.counts, ?_, fun commit => ?_, fun e' he' => ?_⟩
    · have hlooking := countP_set_add (fun e => e.call.activity.looks) he (e.step d.pool)
      have hbefore := h.lookups
      have hsame : (e.step d.pool).call.activity.looks = e.call.isGranted d.pool := hsection.looks
      show d.traffic.lookups + (e.call.traffic d.pool).lookups +
        (d.errands.set i (e.step d.pool)).countP (fun e => e.call.activity.looks) = d.granted + _
      rw [hsame] at hlooking
      rw [Call.lookups_traffic]
      simp only [looking] at hbefore
      omega
    · have hended := countP_set_add (·.isEnd commit) he (e.step d.pool)
      have hbefore := h.ends commit
      have hone := Errand.isEnd_step hproper d.pool commit
      show (d.traffic + e.call.traffic d.pool).ends commit =
        (d.errands.set i (e.step d.pool)).countP (·.isEnd commit)
      rw [Traffic.ends_add, Call.ends_traffic]
      simp only [ended] at hbefore
      omega
    · rcases List.mem_or_eq_of_mem_set he' with hmem | rfl
      · exact h.proper e' hmem
      · exact hproper.step d.pool

theorem Reachable.kept (h : Reachable P d) : Kept P d := by
  induction h with
  | start => exact kept_start P
  | take t o _ ih => exact ih.take t o
  | advance i _ ih => exact ih.advance i
  | around ho _ ih => exact ih.around ho

/-- A call that is about to look a page up can go on. -/
theorem isReady_of_looks {c : Call} (h : c.activity.looks) (P : Pool Tables) : c.isReady P := by
  unfold Activity.looks at h
  split at h
  · rename_i ha
    simp [Call.isReady, Call.result?, Call.sleepsFor, ha]
  · cases h

theorem Settled.looking (h : d.Settled) : d.looking = 0 :=
  List.countP_eq_zero.2 fun e he hlooks => h e he (isReady_of_looks hlooks d.pool)

/-- **The counters account for every event**, in every state to which calls of any transactions lead, whatever
happens around them and whatever fails. -/
theorem counters_account {capacity : Nat} {draws : Draws} {s : Tables}
    (hP : Pool.create capacity draws s = .ok P) (hd : Reachable P d) : Balanced d := by
  obtain ⟨-, rfl⟩ := Pool.create_ok hP
  obtain ⟨⟨hlookups, hwrites, hcommits, haborts, hevictions, hresident⟩, hgranted, hends, -⟩ := hd.kept
  have hempty : (∅ : ExtTreeMap PageId FrameId).size = 0 := ExtTreeMap.size_empty
  simp only [hempty, Nat.zero_add] at hlookups hwrites hcommits haborts hevictions hresident
  have hall : d.pool.counters.hits + d.pool.counters.misses + d.looking = d.granted := by
    rw [hlookups, hgranted]
  refine ⟨hall, fun hsettled => ?_, hwrites, hcommits.trans (hends true), haborts.trans (hends false),
    hevictions, ?_⟩
  · rwa [hsettled.looking] at hall
  · rwa [hevictions]

/-- A pool over no tables. -/
def barePool : Pool Tables := { capacity := 1, storage := {}, draws := Draws.ofSeed 7 }

/-- A transaction asks for a page, which is not found. A store hands in an image of the page, which is then
discarded, and the transaction commits. -/
def visit (P : Pool Tables) : Desk :=
  let asked := (start P).take ⟨1⟩ (.request (.get ⟨⟨1⟩, 0⟩ .read))
  let missed := ((asked.advance 0).advance 0).advance 0
  let made := missed.around (.make (Page.empty ⟨⟨1⟩, 0⟩))
  let installed := ((made.take ⟨1⟩ (.handIn [⟨0⟩])).advance 1).advance 1
  let discarded := installed.around (.discard ⟨⟨1⟩, 0⟩)
  (((discarded.take ⟨1⟩ (.request (.complete true))).advance 2).advance 2).advance 2

theorem reachable_visit (P : Pool Tables) : Reachable P (visit P) := by
  have hasked : Reachable P ((start P).take ⟨1⟩ (.request (.get ⟨⟨1⟩, 0⟩ .read))) := .take _ _ .start
  have hmissed := ((hasked.advance 0).advance 0).advance 0
  have hmade := hmissed.around (o := .make (Page.empty ⟨⟨1⟩, 0⟩)) trivial
  have hinstalled := ((hmade.take ⟨1⟩ (.handIn [⟨0⟩])).advance 1).advance 1
  have hdiscarded := hinstalled.around (o := .discard ⟨⟨1⟩, 0⟩) trivial
  exact (((hdiscarded.take ⟨1⟩ (.request (.complete true))).advance 2).advance 2).advance 2

theorem counters_account_visit :
    Pool.create 1 (Draws.ofSeed 7) {} = .ok barePool ∧ Reachable barePool (visit barePool) ∧
      (visit barePool).granted = 1 ∧ (visit barePool).traffic.installed = 1 ∧
      (visit barePool).traffic.discarded = 1 ∧ (visit barePool).ended true = 1 ∧ Balanced (visit barePool) :=
  have hP : Pool.create 1 (Draws.ofSeed 7) {} = .ok barePool := rfl
  have hreachable := reachable_visit barePool
  ⟨hP, hreachable, rfl, rfl, rfl, rfl, counters_account hP hreachable⟩

end Desk

end PageEngine
