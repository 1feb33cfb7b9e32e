import Mathlib.Data.List.Nodup
import PageEngine.Proofs.World.Alone

/-!
# `Proofs/World/Scan.lean` — what a scan collects

A scan counts the pages of its file once, and then goes through them, one lock at a time. What it has
collected from a page stays what its transaction sees there, because the transaction keeps the lock:

> **the rows of a scan are the rows that its transaction sees when the scan returns, on the pages that
> there were when it began.**

Between two sections of the scan anything may happen, also on the pages that it has not come to yet.
-/

set_option autoImplicit false

namespace PageEngine

open Std

/-- What a scan of a file has collected when it has gone through the first `next` pages. -/
structure Collected (P : Pool Tables) (h : History) (t : TxnId) (x : HeapFile) (next : Nat)
    (rows : List Tuple) : Prop where
  registered : P.storage.catalog[x.table]? = some (.heap x)
  rows_eq : rows = (List.range next).flatMap fun i =>
    x.layout.tuples ⟨x.table, i⟩ (shown P h t ⟨x.table, i⟩)
  held : ∀ i < next, (P.locks.modeOf ⟨x.table, i⟩ t).isSome
  hasPage : ∀ i < next, P.storage.HasPage ⟨x.table, i⟩

/-- A call that collects from the first `n` pages of a file wants the page `p`. -/
def ScanUse (P : Pool Tables) (h : History) (t : TxnId) (x : HeapFile) (n : Nat) (p : PageId)
    (use : Use) : Prop :=
  ∃ next rows, use = .collect x n next rows ∧ p = ⟨x.table, next⟩ ∧ next < n ∧
    Collected P h t x next rows

/-- A call is on its way through the first `n` pages of a file. -/
inductive ScanActivity (P : Pool Tables) (h : History) (t : TxnId) (x : HeapFile) (n : Nat) :
    Activity → Prop
  | locking {p m use} : ScanUse P h t x n p use → ScanActivity P h t x n (.locking p m use)
  | sleeping {ticket p m use} :
      ScanUse P h t x n p use → ScanActivity P h t x n (.sleeping ticket p m use)
  | fetching {p use} : ScanUse P h t x n p use → ScanActivity P h t x n (.fetching p use)
  | working {p f use} : ScanUse P h t x n p use → ScanActivity P h t x n (.working p f use)

section Scan

variable {origin : PageId → PageData} {others : FrameId → Prop} {P P' : Pool Tables}
  {h h' : History} {t : TxnId} {k : Task} {x : HeapFile} {n : Nat} {p : PageId}

/-! ## While others run -/

theorem Collected.rely {next : Nat} {rows : List Tuple} (hc : Collected P h t x next rows)
    (hr : Rely t P P' h h') : Collected P' h' t x next rows where
  registered := hr.catalog _ _ hc.registered
  rows_eq := by
    have hsame : ∀ i ∈ List.range next, x.layout.tuples ⟨x.table, i⟩ (shown P h t ⟨x.table, i⟩) =
        x.layout.tuples ⟨x.table, i⟩ (shown P' h' t ⟨x.table, i⟩) := by
      intro i hi
      have hlt := List.mem_range.1 hi
      rw [shown, shown, hr.own, hr.contents _ (hc.hasPage i hlt) (hc.held i hlt)]
    rw [hc.rows_eq, List.flatMap_congr hsame]
  held i hi := by
    rw [hr.modes]
    exact hc.held i hi
  hasPage i hi := hr.hasPage _ (hc.hasPage i hi)

theorem ScanUse.rely {use : Use} (hu : ScanUse P h t x n p use) (hr : Rely t P P' h h') :
    ScanUse P' h' t x n p use := by
  obtain ⟨next, rows, huse, hp, hlt, hc⟩ := hu
  exact ⟨next, rows, huse, hp, hlt, hc.rely hr⟩

/-- **A scan on its way is not disturbed by others.** -/
theorem ScanActivity.rely {a : Activity} (ha : ScanActivity P h t x n a) (hr : Rely t P P' h h') :
    ScanActivity P' h' t x n a := by
  cases ha with
  | locking hu => exact .locking (hu.rely hr)
  | sleeping hu => exact .sleeping (hu.rely hr)
  | fetching hu => exact .fetching (hu.rely hr)
  | working hu => exact .working (hu.rely hr)

/-! ## The sections of a scan -/

/-- What a section may make of a scan of the first `n` pages: it fails, or it returns what it has
collected from all of them and leaves the pool alone, or it goes on. -/
def ScanNext (P P' : Pool Tables) (h : History) (t : TxnId) (x : HeapFile) (n : Nat) (c : Call) : Prop :=
  (∃ e, c.activity = .finished (.error e)) ∨
  (P' = P ∧ ∃ rows, c.activity = .finished (.ok (.rows rows)) ∧ Collected P h t x n rows) ∨
  ScanActivity P' h t x n c.activity

/-- The scan goes to the next page, or returns after the last one. -/
theorem scanNext_collectNext (c : Call) {next : Nat} {rows : List Tuple} (hle : next ≤ n)
    (hc : Collected P h t x next rows) : ScanNext P P h t x n (c.collectNext x n next rows) := by
  unfold Call.collectNext
  split
  · rename_i hlt
    exact .inr (.inr (.locking ⟨next, rows, rfl, rfl, hlt, hc⟩))
  · rename_i hnot
    obtain rfl : next = n := Nat.le_antisymm hle (Nat.not_lt.1 hnot)
    exact .inr (.inl ⟨rfl, rows, rfl, hc⟩)

theorem Collected.next {next : Nat} {rows : List Tuple} (hc : Collected P h t x next rows)
    {f : FrameId} (hf : Handed P h t ⟨x.table, next⟩ f) :
    Collected P h t x (next + 1)
      (rows ++ x.layout.tuples ⟨x.table, next⟩ (P.page f).data) where
  registered := hc.registered
  rows_eq := by
    rw [List.range_succ, List.flatMap_append, ← hc.rows_eq, List.flatMap_singleton, hf.data_eq]
  held i hi := by
    rcases Nat.lt_succ_iff_lt_or_eq.1 hi with hlt | rfl
    · exact hc.held i hlt
    · exact hf.held
  hasPage i hi := by
    rcases Nat.lt_succ_iff_lt_or_eq.1 hi with hlt | rfl
    · exact hc.hasPage i hlt
    · exact hf.image.hasPage

/-- What the scan has collected does not depend on the locks that are added, nor on the cache. -/
theorem ScanUse.congr {use : Use} (hu : ScanUse P h t x n p use) (hs : P'.storage = P.storage)
    (hl : ∀ q, (P.locks.modeOf q t).isSome → (P'.locks.modeOf q t).isSome) :
    ScanUse P' h t x n p use := by
  obtain ⟨next, rows, huse, hp, hlt, hc⟩ := hu
  refine ⟨next, rows, huse, hp, hlt, by rw [hs]; exact hc.registered, ?_,
    fun i hi => hl _ (hc.held i hi), fun i hi => ?_⟩
  · simpa only [shown, hs] using hc.rows_eq
  · rw [hs]
    exact hc.hasPage i hi

theorem ScanUse.attempt {use : Use} (hu : ScanUse P h t x n p use) {c : Call} (hc : c.txn = t)
    (m : Mode) : ScanNext P (c.attemptLock P p m use).1 h t x n (c.attemptLock P p m use).2 := by
  have hheld : ∀ q, (P.locks.modeOf q t).isSome → ((P.locks.attempt p t m).1.modeOf q t).isSome :=
    fun q hq => LockTable.held_attempt hq
  rcases hatt : P.locks.attempt p t m with ⟨L, r⟩
  rw [hatt] at hheld
  have hafter : ScanUse (P.withLocks L) h t x n p use := hu.congr rfl hheld
  cases r with
  | granted =>
    obtain ⟨next, rows, rfl, -⟩ := hu
    have hstep : c.attemptLock P p m (.collect x n next rows) =
        (P.withLocks L, c.goOn (.fetching p (.collect x n next rows))) := by
      simp only [Call.attemptLock, hc, hatt]
    rw [hstep]
    exact .inr (.inr (.fetching hafter))
  | sleeps ticket =>
    have hstep : c.attemptLock P p m use = (P.withLocks L, c.goOn (.sleeping ticket p m use)) := by
      simp only [Call.attemptLock, hc, hatt]
    rw [hstep]
    exact .inr (.inr (.sleeping hafter))
  | deadlock =>
    have hstep : c.attemptLock P p m use = (P.withLocks L, c.fail (.aborted t)) := by
      simp only [Call.attemptLock, hc, hatt]
    rw [hstep]
    exact .inl ⟨_, rfl⟩

/-- **The next section of a scan fails, or returns, or goes on to the next page.** -/
theorem ScanActivity.step (hi : PoolInv origin others P h) (hk : TaskInv P h t k)
    (hfree : Unclaimed others P t) (hs : ScanActivity P h t x n k.call.activity) :
    ScanNext P (k.call.step P).1 h t x n (k.call.step P).2 := by
  have hinv := hk.activity
  have hsame := hs
  generalize ha : k.call.activity = a at hs hinv
  cases hs with
  | locking hu =>
    simp only [Call.step, ha]
    exact hu.attempt hk.txn _
  | @sleeping ticket p m use hu =>
    by_cases hsleeps : P.locks.sleeps ticket = true
    · simp only [Call.step, ha, if_pos hsleeps]
      exact .inr (.inr hsame)
    · simp only [Call.step, ha, if_neg hsleeps]
      exact hu.attempt hk.txn m
  | @fetching p use hu =>
    obtain ⟨Q, -, hQs, hQl, hfetch⟩ := hi.fetch_serves hfree hinv.2.1
    rcases hfetch with ⟨e, hfetch⟩ | ⟨f, hfetch, -⟩
    · simp only [Call.step, ha, hfetch]
      exact .inl ⟨e, rfl⟩
    · simp only [Call.step, ha, hfetch]
      exact .inr (.inr (.working (hu.congr hQs fun q hq => by rw [hQl]; exact hq)))
  | @working p f use hu =>
    obtain ⟨next, rows, rfl, rfl, hlt, hc⟩ := hu
    simp only [Call.step, ha, Call.useFrame]
    exact scanNext_collectNext k.call hlt (hc.next hinv.2.2.1)

/-- **A scan of a registered file begins by counting its pages.** -/
theorem scanNext_start (hi : PoolInv origin others P h)
    (hcat : P.storage.catalog[x.table]? = some (.heap x)) (ha : k.call.activity = .start (.scan x)) :
    ScanNext P (k.call.step P).1 h t x (P.storage.pages x.table) (k.call.step P).2 := by
  have hn := Tables.numPages_of_heap hi.sound hcat
  simp only [Call.step, ha, Call.start]
  by_cases hmax : P.storage.pages x.table ≤ maxPageNo
  · rw [hn, if_pos hmax]
    refine scanNext_collectNext k.call (Nat.zero_le _) ⟨hcat, rfl, ?_, ?_⟩
    · exact fun i hi => absurd hi (Nat.not_lt_zero i)
    · exact fun i hi => absurd hi (Nat.not_lt_zero i)
  · rw [hn, if_neg hmax]
    exact .inl ⟨_, rfl⟩

end Scan

/-! ## From the first section to the last -/

namespace World

/-- Each of the actions can happen and is of the given kind, and before each of them `t` has a call in
flight; so it is one call. -/
def Lasts (kind : Action → Prop) (t : TxnId) (w : World) : List Action → Prop
  | [] => True
  | a :: as => (w.tasks t).isSome ∧ a.Enabled w ∧ kind a ∧ (w.act a).Lasts kind t as

variable {kind : Action → Prop} {origin : PageId → PageData} {w : World} {t : TxnId} {k : Task}
  {x : HeapFile} {n : Nat}

theorem Lasts.inv (hkind : ∀ a, kind a → a.ThroughPool) (hw : w.Inv origin) {as : List Action}
    (h : w.Lasts kind t as) : (w.run as).Inv origin := by
  induction as generalizing w with
  | nil => exact hw
  | cons a as ih => exact ih (hw.act h.2.1 (hkind a h.2.2.1)) h.2.2.2

theorem lasts_append {as bs : List Action} :
    w.Lasts kind t (as ++ bs) ↔ w.Lasts kind t as ∧ (w.run as).Lasts kind t bs := by
  induction as generalizing w with
  | nil => exact ⟨fun h => ⟨trivial, h⟩, And.right⟩
  | cons a as ih =>
    show (_ ∧ _ ∧ _ ∧ (w.act a).Lasts kind t (as ++ bs)) ↔ _
    rw [ih]
    simp only [World.Lasts, run, List.foldl_cons, and_assoc]

theorem tasks_advance_of_ne (w : World) {u : TxnId} (hu : t ≠ u) :
    (w.advance u).tasks t = w.tasks t := by
  rcases w.advance_cases u with ⟨-, heq⟩ | ⟨k, rule, p, use, -, -, -, heq⟩ | ⟨k, -, -, heq⟩
  · rw [heq]
  · rw [heq]
    unfold editPage
    split <;> simp [setTask, hu]
  · rw [heq]
    simp [runSection, hu]

/-- A call lasts while another transaction is served. -/
theorem lasts_of_other (hsome : (w.tasks t).isSome) {u : TxnId} (hu : t ≠ u) (hidle : w.tasks u = none)
    {r : Request} (hr : kind (.request u r)) (hnext : kind (.advance u)) (n : Nat) :
    w.Lasts kind t (.request u r :: List.replicate n (.advance u)) := by
  refine ⟨hsome, hidle, hr, ?_⟩
  have hsome : ((w.act (.request u r)).tasks t).isSome := by
    simpa [act, setTask, hu] using hsome
  generalize w.act (.request u r) = v at hsome
  induction n generalizing v with
  | zero => exact trivial
  | succ n ih =>
    refine ⟨hsome, trivial, hnext, ih _ ?_⟩
    rw [act, tasks_advance_of_ne v hu]
    exact hsome

theorem run_idle (hidle : w.tasks t = none) (n : Nat) :
    w.run (List.replicate n (.advance t)) = w := by
  induction n with
  | zero => rfl
  | succ n ih =>
    have hsame : w.act (.advance t) = w := by simp only [act, advance, hidle]
    show (w.act (.advance t)).run (List.replicate n (.advance t)) = w
    rw [hsame, ih]

/-- A call that is there after some sections was there before each of them. -/
theorem lasts_of_isSome (hnext : kind (.advance t)) {n : Nat}
    (h : ((w.run (List.replicate n (.advance t))).tasks t).isSome) :
    w.Lasts kind t (List.replicate n (.advance t)) := by
  induction n generalizing w with
  | zero => exact trivial
  | succ n ih =>
    refine ⟨?_, trivial, hnext, ih h⟩
    by_contra hnone
    have hidle := Option.not_isSome_iff_eq_none.1 hnone
    rw [run_idle hidle] at h
    exact hnone h

/-- **An action that is not a section of `t` leaves the call of `t` as it is, and what it relies on.** -/
theorem Inv.rely_act (hw : w.Inv origin) (hk : w.tasks t = some k) {a : Action} (ha : a.Enabled w)
    (hne : a ≠ .advance t) :
    (w.act a).tasks t = some k ∧ Rely t w.pool (w.act a).pool w.history (w.act a).history := by
  -- Whoever makes a request is another transaction.
  have hbegins : ∀ {u : TxnId} {k' : Task}, w.tasks u = none →
      (w.setTask u (some k')).tasks t = some k := by
    intro u k' hidle
    have hu : t ≠ u := by
      rintro rfl
      rw [hk] at hidle
      cases hidle
    simpa [setTask, hu] using hk
  cases a with
  | request u r => exact ⟨hbegins ha, .of_history fun _ => rfl⟩
  | edit u p rule => exact ⟨hbegins ha, .of_history fun _ => rfl⟩
  | register file =>
    exact ⟨hk, .of_grown (Tables.grown_register hw.pool.sound ha) fun _ => rfl⟩
  | advance u =>
    have hu : t ≠ u := fun h => hne (by rw [h])
    rcases hw.serves_advance u with heq | ⟨P, h, k', heq, hserves⟩
    · rw [World.act, heq]
      exact ⟨hk, .of_history fun _ => rfl⟩
    · rw [World.act, heq]
      exact ⟨by simpa [hu] using hk, hserves.keeps.rely t hu⟩

/-- A scan of the first `n` pages of a file is on its way. -/
def Scanning (w : World) (t : TxnId) (x : HeapFile) (n : Nat) : Prop :=
  ∀ k, w.tasks t = some k → k.rule = none ∧ ScanActivity w.pool w.history t x n k.call.activity

/-- What the next section makes of a scan, if it goes on, is a scan on its way. -/
theorem scanning_runSection (hrule : k.rule = none)
    (hnext : ScanNext w.pool (k.call.step w.pool).1 w.history t x n (k.call.step w.pool).2)
    (hown : ∀ P c q, History.own t q (k.events w.pool P c ++ w.history) = History.own t q w.history) :
    (w.runSection t k).Scanning t x n := by
  intro k' hk'
  have hk' : k.after (k.call.step w.pool).1 (k.call.step w.pool).2 = some k' := by
    simpa [runSection] using hk'
  unfold Task.after at hk'
  split at hk'
  · cases hk'
  · rename_i hnone
    obtain rfl := Option.some.inj hk'
    refine ⟨hrule, ?_⟩
    rcases hnext with ⟨e, he⟩ | ⟨-, rows, hrows, -⟩ | hs
    · simp [Call.result?, he] at hnone
    · simp [Call.result?, hrows] at hnone
    · exact hs.rely (.of_history (hown _ _))

/-- The sections of a scan show in no change of its transaction. -/
theorem own_events_of_scan {P P' Q : Pool Tables} {c : Call} {h : History}
    (hs : ScanActivity P h t x n k.call.activity) (q : PageId) :
    History.own t q (k.events P' Q c ++ h) = History.own t q h := by
  generalize ha : k.call.activity = a at hs
  cases hs with
  | locking hu => simp only [Task.events, ha, List.nil_append]
  | sleeping hu => simp only [Task.events, ha, List.nil_append]
  | fetching hu => simp only [Task.events, ha, List.nil_append]
  | working hu =>
    simp only [Task.events, ha]
    rfl

/-- The next section of a scan on its way, in a world. -/
theorem Inv.scanNext (hw : w.Inv origin) (hk : w.tasks t = some k)
    (hs : ScanActivity w.pool w.history t x n k.call.activity) :
    ScanNext w.pool (k.call.step w.pool).1 w.history t x n (k.call.step w.pool).2 := by
  refine hs.step (hw.pool_of_call hk fun f fs hfs => ?_) (hw.tasks t k hk) (hw.unclaimed t)
  rw [hfs] at hs
  cases hs

theorem Inv.scanNext_of_start (hw : w.Inv origin) (hk : w.tasks t = some k)
    (hcat : w.pool.storage.catalog[x.table]? = some (.heap x))
    (ha : k.call.activity = .start (.scan x)) :
    ScanNext w.pool (k.call.step w.pool).1 w.history t x (w.pool.storage.pages x.table)
      (k.call.step w.pool).2 :=
  scanNext_start (hw.pool_of_call hk (by simp [ha])) hcat ha

theorem Inv.rule_of_scan (hw : w.Inv origin) (hk : w.tasks t = some k)
    (ha : k.call.activity = .start (.scan x)) : k.rule = none := by
  have hinv := (hw.tasks t k hk).activity
  rw [ha] at hinv
  cases hrule : k.rule with
  | none => rfl
  | some rule =>
    obtain ⟨p, hp⟩ := hinv.2 (by rw [hrule]; rfl)
    cases hp

/-- **A scan stays on its way whatever happens**, and so does what it has collected. -/
theorem Inv.scanning_act (hw : w.Inv origin) (hs : w.Scanning t x n) (hk : w.tasks t = some k)
    {a : Action} (ha : a.Enabled w) : (w.act a).Scanning t x n := by
  obtain ⟨hrule, hact⟩ := hs k hk
  by_cases hself : a = .advance t
  · subst hself
    rw [World.act, advance_of_plain hk hrule]
    exact scanning_runSection hrule (hw.scanNext hk hact)
      fun _ _ q => own_events_of_scan hact q
  · obtain ⟨hsame, hrely⟩ := hw.rely_act hk ha hself
    intro k' hk'
    obtain rfl := Option.some.inj (hsame.symm.trans hk')
    exact ⟨hrule, hact.rely hrely⟩

theorem Inv.scanning_run (hkind : ∀ a, kind a → a.ThroughPool) (hw : w.Inv origin)
    (hs : w.Scanning t x n) {as : List Action} (h : w.Lasts kind t as) :
    (w.run as).Scanning t x n := by
  induction as generalizing w with
  | nil => exact hs
  | cons a as ih =>
    obtain ⟨hsome, ha, hk, hrest⟩ := h
    obtain ⟨k, hk'⟩ := Option.isSome_iff_exists.1 hsome
    exact ih (hw.act ha (hkind a hk)) (hw.scanning_act hs hk' ha) hrest

/-- **The rows of a scan.** A scan whose first section counts `n` pages and which returns rows after any
actions has collected them from those pages, as its transaction sees them then. -/
theorem Inv.collected_of_scan (hkind : ∀ a, kind a → a.ThroughPool) (hw : w.Inv origin)
    (hk : w.tasks t = some k) (hstart : k.call.activity = .start (.scan x))
    (hcat : w.pool.storage.catalog[x.table]? = some (.heap x)) {as : List Action}
    (hlasts : w.Lasts kind t as) (hfirst : ∀ a ∈ as.head?, a = .advance t) {k' : Task}
    (hk' : (w.run as).tasks t = some k') {rows : List Tuple}
    (hrows : (k'.call.step (w.run as).pool).2.activity = .finished (.ok (.rows rows))) :
    Collected (w.run as).pool (w.run as).history t x (w.pool.storage.pages x.table) rows := by
  have hrule := hw.rule_of_scan hk hstart
  have hnext : ScanNext (w.run as).pool (k'.call.step (w.run as).pool).1 (w.run as).history t x
      (w.pool.storage.pages x.table) (k'.call.step (w.run as).pool).2 := by
    cases as with
    | nil =>
      obtain rfl := Option.some.inj (hk.symm.trans hk')
      exact hw.scanNext_of_start hk hcat hstart
    | cons a as =>
      obtain rfl := hfirst a rfl
      obtain ⟨-, ha, hthis, hrest⟩ := hlasts
      have hscanning : (w.act (.advance t)).Scanning t x (w.pool.storage.pages x.table) := by
        rw [World.act, advance_of_plain hk hrule]
        exact scanning_runSection hrule (hw.scanNext_of_start hk hcat hstart)
          fun _ _ _ => by simp only [Task.events, hstart, List.nil_append]
      have hw' := hw.act ha (hkind _ hthis)
      have hlast := hw'.scanning_run hkind hscanning hrest k' hk'
      exact (hrest.inv hkind hw').scanNext hk' hlast.2
  rcases hnext with ⟨e, he⟩ | ⟨-, rows', hrows', hc⟩ | hs
  · rw [hrows] at he
    cases he
  · rw [hrows] at hrows'
    cases hrows'
    exact hc
  · rw [hrows] at hs
    cases hs

end World

end PageEngine
