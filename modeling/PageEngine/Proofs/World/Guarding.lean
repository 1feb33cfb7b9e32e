import PageEngine.Proofs.World.Ledger
import PageEngine.Proofs.World.Scan

/-!
# `Proofs/World/Guarding.lean` — a transaction that holds the first page of a table

There is no lock for a table. But every insert begins at the first page of its table and asks for it
exclusively, so whoever holds this page, in whatever mode, keeps the inserts of all others waiting there:

> **while a transaction holds the first page, nobody else's insert gets past it** (`Activity.Waits`), nobody
> else grows the file, and a page that the transaction adds stays blank for everybody else.

The transaction keeps what it holds at one moment (`Activity.Spares`): its own inserts give back only pages
that they have locked themselves.
-/

set_option autoImplicit false

namespace PageEngine

open Std

/-- The pages of a table with numbers below `m`. -/
def FirstPages (s : TableId) (m : Nat) (p : PageId) : Prop := p.table = s ∧ p.pageNo < m

/-- The pages of a table with numbers from `n` on. -/
def LaterPages (s : TableId) (n : Nat) (p : PageId) : Prop := p.table = s ∧ n ≤ p.pageNo

/-! ## How a call begins -/

/-- A request that does not end its transaction begins with its result, or asks for a page but not to put a row
there, or it is an insert into a registered file, which counts the pages first. -/
theorem start_cases (c : Call) {P : Pool Tables} {t : TxnId} {q : Request} (hd : P.storage.Sound)
    (hthrough : (Action.request t q).ThroughPool) (hq : ∀ b, q ≠ .complete b) :
    (∃ res, (c.start P q).2.activity = .finished res) ∨
    (∃ p m use, (c.start P q).2.activity = .locking p m use ∧ ∀ i, use ≠ .place i) ∨
    ∃ i, (c.start P q).2.activity = .counting i ∧ i.next = 0 ∧ Registered P i := by
  cases q with
  | lock p m => exact .inr (.inl ⟨_, _, _, rfl, by simp⟩)
  | get p a => exact .inr (.inl ⟨_, _, _, rfl, by simp⟩)
  | scan x =>
    simp only [Call.start]
    split
    · exact .inl ⟨_, rfl⟩
    · rename_i pages _
      rcases collectNext_cases c x pages 0 [] with hnext | hnext
      · exact .inr (.inl ⟨_, _, _, by rw [hnext]; rfl, by simp⟩)
      · exact .inl ⟨_, by rw [hnext]; rfl⟩
  | insert table asked =>
    simp only [Call.start]
    split
    · exact .inl ⟨_, rfl⟩
    · rename_i s hs
      obtain ⟨x, rfl, hx⟩ := hd.heap_of_store hs
      simp only [Call.startInsert]
      split
      · exact .inr (.inr ⟨_, rfl, rfl, hx⟩)
      · exact .inl ⟨_, rfl⟩
  | delete asked =>
    simp only [Call.start]
    split
    · exact .inl ⟨_, rfl⟩
    · split
      · exact .inl ⟨_, rfl⟩
      · rename_i s hs
        obtain ⟨x, rfl, -⟩ := hd.heap_of_store hs
        simp only [Call.startDelete]
        split
        · exact .inl ⟨_, rfl⟩
        · split
          · exact .inl ⟨_, rfl⟩
          · exact .inr (.inl ⟨_, _, _, rfl, by simp⟩)
  | insertInto s asked => exact hthrough.elim
  | deleteFrom s asked => exact hthrough.elim
  | complete b => exact absurd rfl (hq b)

/-! ## What a section does to the locks -/

/-- What a section of a call of `t` at `a` does to the locks: nothing, or it asks for one, or it gives back the one
of a full page, or all of them. -/
inductive LockEffect (P : Pool Tables) (t : TxnId) (a : Activity) (P' : Pool Tables) : Prop
  | same : P'.locks = P.locks → LockEffect P t a P'
  | asks (p : PageId) (m : Mode) : P'.locks = (P.locks.attempt p t m).1 → LockEffect P t a P'
  | drops (i : Insertion) : a = .dropping i → P'.locks = (P.locks.release i.page t).1 → LockEffect P t a P'
  | givesBack (commit : Bool) (res : Except Error Unit) : a = .releasing commit res →
      P'.locks = (P.locks.releaseAll t).1 → LockEffect P t a P'

section LockEffect

variable {origin : PageId → PageData} {others : FrameId → Prop} {P : Pool Tables} {h : History} {t : TxnId}
  {k : Task}

theorem Pool.locks_install (P : Pool Tables) (t : TxnId) (f : FrameId) : (P.install t f).1.locks = P.locks := by
  rcases P.install_cases t f with ⟨-, hinst⟩ | ⟨g, -, -, hinst⟩ | ⟨-, R, hR, ⟨e, hinst⟩ | hinst⟩
  · rw [hinst]
    rfl
  · rw [hinst]
    rfl
  · rw [hinst]
    exact hR.locks
  · rw [hinst]
    exact hR.locks

theorem locks_attemptLock (c : Call) (P : Pool Tables) (p : PageId) (m : Mode) (use : Use) :
    (c.attemptLock P p m use).1.locks = (P.locks.attempt p c.txn m).1 := by
  unfold Call.attemptLock
  split <;> rename_i heq <;> rw [heq] <;> rfl

theorem locks_useFrame (c : Call) (P : Pool Tables) (p : PageId) (f : FrameId) (use : Use) :
    (c.useFrame P p f use).1.locks = P.locks := by
  cases use with
  | holdLock => rfl
  | deliver => rfl
  | collect x pages next rows => rfl
  | place i =>
    simp only [Call.useFrame, Call.place]
    split
    · rfl
    · split <;> rfl
  | remove x slot =>
    simp only [Call.useFrame, Call.remove]
    split <;> rfl

/-- **A call gives a lock back after a full page, or at the end of its transaction.** -/
theorem Call.lockEffect (hsound : P.storage.Sound) (hfiled : P.Filed)
    (hwithin : ∀ (p : PageId) (f : FrameId), P.resident[p]? = some f → P.storage.HasPage p) {c : Call}
    (hthrough : ∀ q, c.activity = .start q → (Action.request c.txn q).ThroughPool) :
    LockEffect P c.txn c.activity (c.step P).1 := by
  cases hact : c.activity with
  | start q =>
    refine .same ?_
    simp only [Call.step, hact]
    by_cases hend : ∃ b, q = .complete b
    · obtain ⟨b, rfl⟩ := hend
      cases b with
      | false => exact (P.restoreHeld_spec hfiled _).2.locks
      | true => exact (Pool.flushHeld_spec hsound hfiled hwithin _).1.locks
    · rw [pool_start _ P (fun b hb => hend ⟨b, hb⟩) (hthrough q hact) hsound]
  | locking q m use =>
    refine .asks q m ?_
    simp only [Call.step, hact]
    exact locks_attemptLock _ P q m use
  | sleeping ticket q m use =>
    simp only [Call.step, hact]
    split
    · exact .same rfl
    · exact .asks q m (locks_attemptLock _ P q m use)
  | fetching q use =>
    refine .same ?_
    rcases P.fetch_cases q with ⟨R, f, hR, -, -, hfetch⟩ | ⟨R, e, hR, hfetch⟩ | ⟨R, hR, -, -, hfetch⟩
    all_goals
      simp only [Call.step, hact, hfetch]
      exact hR.locks
  | working q f use =>
    refine .same ?_
    simp only [Call.step, hact]
    exact locks_useFrame _ P q f use
  | dropping i =>
    refine .drops i rfl ?_
    simp only [Call.step, hact, Pool.releasePage]
    cases (P.locks.release i.page c.txn).2 <;> rfl
  | counting i =>
    refine .same ?_
    simp only [Call.step, hact]
    split <;> rfl
  | growing i =>
    refine .same ?_
    simp only [Call.step, hact]
    split <;> rfl
  | installing fs =>
    refine .same ?_
    cases fs with
    | nil => simp only [Call.step, hact]
    | cons f fs =>
      have hlocks := P.locks_install c.txn f
      simp only [Call.step, hact]
      split <;> rename_i heq <;> rw [heq] at hlocks <;> exact hlocks
  | releasing commit res =>
    refine .givesBack commit res rfl ?_
    simp only [Call.step, hact]
    rfl
  | ending commit res =>
    refine .same ?_
    simp only [Call.step, hact]
    rfl
  | finished res => exact .same (by simp only [Call.step, hact])

theorem TaskInv.lockEffect (hi : PoolInv origin others P h) (hk : TaskInv P h t k) :
    LockEffect P t k.call.activity (k.call.step P).1 := by
  have hthrough : ∀ q, k.call.activity = .start q → (Action.request k.call.txn q).ThroughPool := by
    intro q hact
    have hinv := hk.activity
    rw [hact, ← hk.txn] at hinv
    exact hinv.1
  rw [← hk.txn]
  exact Call.lockEffect hi.sound hi.filed (fun q g hg => (hi.cached q g hg).image.hasPage) hthrough

end LockEffect

/-! ## The transaction that holds the page -/

def Use.Spares (K : PageId → Prop) : Use → Prop
  | .place i => i.heldBefore = false → ¬K i.page
  | _ => True

theorem Use.spares_of_ne {K : PageId → Prop} {use : Use} (hu : ∀ i, use ≠ .place i) : use.Spares K := by
  cases use with
  | place i => exact absurd rfl (hu i)
  | _ => trivial

/-- A call at this section gives back no page of `K`, and does not end its transaction. -/
def Activity.Spares (K : PageId → Prop) : Activity → Prop
  | .start r => ∀ b, r ≠ .complete b
  | .locking _ _ use => use.Spares K
  | .sleeping _ _ _ use => use.Spares K
  | .fetching _ use => use.Spares K
  | .working _ _ use => use.Spares K
  | .dropping i => ¬K i.page
  | .releasing .. => False
  | .ending .. => False
  | _ => True

section Spares

variable {origin : PageId → PageData} {others : FrameId → Prop} {K : PageId → Prop} {P : Pool Tables}
  {h : History} {t : TxnId} {k : Task} {c : Call}

theorem Activity.Spares.tryNext (hc : c.txn = t) (hK : ∀ p, K p → (P.locks.modeOf p t).isSome)
    (i : Insertion) : (c.tryNext P i).activity.Spares K := by
  unfold Call.tryNext
  split
  · -- A page that is held is not one that the insert locks itself.
    intro hfree hin
    have hheld := hK i.page hin
    rw [← hc] at hheld
    exact absurd hheld (by simpa [LockTable.holds] using hfree)
  · trivial

theorem Activity.Spares.collectNext (x : HeapFile) (pages next : Nat) (rows : List Tuple) :
    (c.collectNext x pages next rows).activity.Spares K := by
  unfold Call.collectNext
  split <;> trivial

theorem Activity.Spares.attempt {p : PageId} {m : Mode} {use : Use} (hu : use.Spares K) :
    (c.attemptLock P p m use).2.activity.Spares K := by
  unfold Call.attemptLock
  split
  · cases use <;> exact hu
  · exact hu
  · trivial

theorem Activity.Spares.start (hd : P.storage.Sound) {q : Request} (hq : ∀ b, q ≠ .complete b)
    (hthrough : (Action.request t q).ThroughPool) : (c.start P q).2.activity.Spares K := by
  rcases start_cases c hd hthrough hq with ⟨res, ha⟩ | ⟨p, m, use, ha, huse⟩ | ⟨i, ha, -⟩
  · rw [ha]
    trivial
  · rw [ha]
    exact Use.spares_of_ne huse
  · rw [ha]
    trivial

theorem Activity.Spares.useFrame (hc : c.txn = t) (hinst : c.installs = true)
    (hK : ∀ p, K p → (P.locks.modeOf p t).isSome) {p : PageId} {f : FrameId} {use : Use}
    (hu : use.Spares K) : (c.useFrame P p f use).2.activity.Spares K := by
  cases use with
  | holdLock => trivial
  | deliver => trivial
  | collect x pages next rows => exact .collectNext x _ _ _
  | place i =>
    simp only [Call.useFrame, Call.place]
    split
    · simp only [Call.changed, hinst, if_true]
      trivial
    · split
      · exact .tryNext hc hK _
      · rename_i hheld
        exact hu (by simpa using hheld)
  | remove x slot =>
    simp only [Call.useFrame, Call.remove]
    split
    · simp only [Call.changed, hinst, if_true]
      trivial
    · trivial

/-- **A call that gives back no page of `K` leaves its transaction all of them.** -/
theorem TaskInv.held_step (hi : PoolInv origin others P h) (hk : TaskInv P h t k)
    (ha : k.call.activity.Spares K) {p : PageId} (hp : K p) (hheld : (P.locks.modeOf p t).isSome) :
    ((k.call.step P).1.locks.modeOf p t).isSome := by
  rcases hk.lockEffect hi with hsame | ⟨q, m, hasks⟩ | ⟨i, hact, hdrops⟩ | ⟨commit, res, hact, -⟩
  · rw [hsame]
    exact hheld
  · rw [hasks]
    exact LockTable.held_attempt hheld
  · rw [hact] at ha
    have hne : ¬(p = i.page ∧ t = t) := fun hboth => ha (hboth.1 ▸ hp)
    rw [hdrops, LockTable.modeOf_release hi.locks i.page t p t, if_neg hne]
    exact hheld
  · rw [hact] at ha
    exact ha.elim

/-- **A call that gives back no page of `K` goes on so.** -/
theorem Activity.Spares.step (hi : PoolInv origin others P h) (hk : TaskInv P h t k)
    (ha : k.call.activity.Spares K) (hK : ∀ p, K p → (P.locks.modeOf p t).isSome) :
    (k.call.step P).2.activity.Spares K := by
  have hK' : ∀ p, K p → ((k.call.step P).1.locks.modeOf p t).isSome :=
    fun p hp => hk.held_step hi ha hp (hK p hp)
  have hinv := hk.activity
  cases hact : k.call.activity with
  | start q =>
    rw [hact] at ha hinv
    simp only [Call.step, hact]
    exact .start hi.sound ha hinv.1
  | locking q m use =>
    rw [hact] at ha
    simp only [Call.step, hact]
    exact .attempt ha
  | sleeping ticket q m use =>
    have hsame := ha
    rw [hact] at ha
    simp only [Call.step, hact]
    split
    · exact hsame
    · exact .attempt ha
  | fetching q use =>
    rw [hact] at ha
    simp only [Call.step, hact]
    split
    · trivial
    · exact ha
  | working q f use =>
    rw [hact] at ha
    simp only [Call.step, hact]
    exact .useFrame hk.txn hk.installs hK ha
  | dropping i =>
    simp only [Call.step, hact] at hK' ⊢
    split
    · trivial
    · rename_i Q _ heq
      rw [heq] at hK'
      exact .tryNext hk.txn hK' _
  | counting i =>
    simp only [Call.step, hact]
    split
    · trivial
    · exact .tryNext hk.txn hK _
  | growing i =>
    simp only [Call.step, hact]
    split <;> trivial
  | installing fs =>
    cases fs with
    | nil =>
      simp only [Call.step, hact]
      trivial
    | cons f fs =>
      simp only [Call.step, hact]
      split <;> trivial
  | releasing commit res =>
    rw [hact] at ha
    exact ha.elim
  | ending commit res =>
    rw [hact] at ha
    exact ha.elim
  | finished res =>
    simp only [Call.step, hact]
    trivial

end Spares

/-! ## The others -/

/-- An insert into the table has not got past its first page. -/
def Use.AtFirst (s : TableId) : Use → Prop
  | .place i => i.heap.table = s → i.next = 0
  | _ => True

def Use.Elsewhere (s : TableId) : Use → Prop
  | .place i => i.heap.table ≠ s
  | _ => True

theorem Use.elsewhere_of_ne {s : TableId} {use : Use} (hu : ∀ i, use ≠ .place i) : use.Elsewhere s := by
  cases use with
  | place i => exact absurd rfl (hu i)
  | _ => trivial

theorem Use.Elsewhere.atFirst {s : TableId} {use : Use} (hu : use.Elsewhere s) : use.AtFirst s := by
  cases use with
  | place i => exact fun hs => absurd hs hu
  | _ => trivial

/-- A call at this section that is an insert into the table waits for its first page at most, and it does not
install a page of the table with a number from `n` on. -/
def Activity.Waits (s : TableId) (n : Nat) (P : Pool Tables) : Activity → Prop
  | .counting i => i.heap.table = s → i.next = 0
  | .locking _ _ use => use.AtFirst s
  | .sleeping _ _ _ use => use.AtFirst s
  | .fetching _ use => use.Elsewhere s
  | .working _ _ use => use.Elsewhere s
  | .dropping i => i.heap.table ≠ s
  | .growing i => i.heap.table ≠ s
  | .installing fs => ∀ f ∈ fs, ¬LaterPages s n (P.page f).id
  | _ => True

/-- Somebody else than `u` holds the first page of the table, and the pages from number `n` on, if there are
any, are blank for `u`. -/
structure Barred (P : Pool Tables) (h : History) (u : TxnId) (s : TableId) (n : Nat) : Prop where
  pages : 0 < P.storage.pages s
  taken : ∃ t, t ≠ u ∧ (P.locks.modeOf ⟨s, 0⟩ t).isSome
  blank : ∀ p, LaterPages s n p → P.storage.HasPage p → P.storage.contents p = PageData.zeros
  untouched : ∀ p, LaterPages s n p → History.own u p h = none

section Waits

variable {origin : PageId → PageData} {others : FrameId → Prop} {P : Pool Tables} {h : History} {u : TxnId}
  {k : Task} {c : Call} {s : TableId} {n : Nat} {p : PageId} {f : FrameId}

theorem Activity.Waits.tryNext {i : Insertion} (hi : i.heap.table = s → i.next = 0 ∧ 0 < i.pages) :
    (c.tryNext P i).activity.Waits s n P := by
  unfold Call.tryNext
  split
  · exact fun hs => (hi hs).1
  · rename_i hle
    intro hs
    obtain ⟨hzero, hpos⟩ := hi hs
    exact hle (hzero ▸ hpos)

theorem Activity.Waits.collectNext (x : HeapFile) (pages next : Nat) (rows : List Tuple) :
    (c.collectNext x pages next rows).activity.Waits s n P := by
  unfold Call.collectNext
  split <;> trivial

theorem Activity.Waits.start (hd : P.storage.Sound) {q : Request}
    (hthrough : (Action.request u q).ThroughPool) (Q : Pool Tables) :
    (c.start P q).2.activity.Waits s n Q := by
  by_cases hend : ∃ b, q = .complete b
  · obtain ⟨b, rfl⟩ := hend
    trivial
  rcases start_cases c hd hthrough fun b hb => hend ⟨b, hb⟩ with
    ⟨res, ha⟩ | ⟨p, m, use, ha, huse⟩ | ⟨i, ha, hfirst, -⟩
  · rw [ha]
    trivial
  · rw [ha]
    exact (Use.elsewhere_of_ne huse).atFirst
  · rw [ha]
    exact fun _ => hfirst

/-- Nobody gets a page exclusively that somebody else holds. -/
theorem LockTable.not_granted {L L' : LockTable} {t : TxnId} (ht : t ≠ u) (hheld : (L.modeOf p t).isSome) :
    L.attempt p u .exclusive ≠ (L', .granted) := by
  intro hgrant
  have hmode := L.modeOf_attempt p u .exclusive p u
  have hother := LockTable.held_attempt (p := p) (t := u) (m := .exclusive) hheld
  rw [hgrant, if_pos ⟨rfl, rfl, rfl⟩, Mode.raised_of_exclusive] at hmode
  rw [hgrant] at hother
  exact ht (LockTable.eq_of_modeOf_exclusive hmode hother)

/-- **An insert that asks for the first page does not get it.** -/
theorem Activity.Waits.attempt (hb : Barred P h u s n) (hc : c.txn = u)
    {m : Mode} {use : Use} (huse : UseInv P h u p use) (hmode : use.Writes → m = .exclusive)
    (ha : use.AtFirst s) (Q : Pool Tables) : (c.attemptLock P p m use).2.activity.Waits s n Q := by
  unfold Call.attemptLock
  split
  · rename_i L hgrant
    cases use with
    | place i =>
      intro hs
      obtain ⟨t, ht, hheld⟩ := hb.taken
      obtain ⟨rfl, -, -⟩ := huse
      obtain rfl := hmode trivial
      have hfirst : i.page = ⟨s, 0⟩ := by rw [Insertion.page, hs, ha hs]
      rw [hc, hfirst] at hgrant
      exact LockTable.not_granted ht hheld hgrant
    | _ => trivial
  · exact ha
  · trivial

/-- **Whoever is barred from the table changes none of its later pages.** -/
theorem Activity.Waits.useFrame (hb : Barred P h u s n) (hinst : c.installs = true) {use : Use}
    (huse : UseInv P h u p use) (hf : Handed P h u p f) (ha : use.Elsewhere s) :
    (c.useFrame P p f use).2.activity.Waits s n (c.useFrame P p f use).1 := by
  have hset : ∀ y, ((P.setPage f ((P.page f).withData y)).page f).id = p := by
    intro y
    rw [Pool.page_setPage, if_pos ⟨rfl, hf.image.index_lt⟩, Page.withData_id, hf.image.id_eq]
  cases use with
  | holdLock => trivial
  | deliver => trivial
  | collect x pages next rows => exact .collectNext x _ _ _
  | place i =>
    simp only [Call.useFrame, Call.place]
    split
    · simp only [Call.changed, hinst, if_true]
      intro g hg hlater
      rw [List.mem_singleton.1 hg, hset, ← huse.1] at hlater
      exact ha hlater.1
    · split
      · exact .tryNext fun hs => absurd hs ha
      · exact ha
  | remove x slot =>
    simp only [Call.useFrame, Call.remove]
    split
    · rename_i hused
      simp only [Call.changed, hinst, if_true]
      intro g hg hlater
      rw [List.mem_singleton.1 hg, hset] at hlater
      -- There is no row on a blank page.
      rw [hf.data_eq, shown, hb.untouched p hlater, Option.getD_none, hb.blank p hlater hf.image.hasPage,
        SlotLayout.isUsed_zeros] at hused
      cases hused
    · trivial

/-- **An insert that waits goes on waiting**, and calls of other kinds are no concern. -/
theorem Activity.Waits.step (hi : PoolInv origin others P h) (hk : TaskInv P h u k) (hb : Barred P h u s n)
    (ha : k.call.activity.Waits s n P) : (k.call.step P).2.activity.Waits s n (k.call.step P).1 := by
  have hinv := hk.activity
  cases hact : k.call.activity with
  | start q =>
    rw [hact] at hinv
    simp only [Call.step, hact]
    exact .start hi.sound hinv.1 _
  | locking q m use =>
    rw [hact] at ha hinv
    simp only [Call.step, hact]
    exact .attempt hb hk.txn hinv.1 (fun hw => hinv.2 (.inl hw)) ha _
  | sleeping ticket q m use =>
    have hsame := ha
    rw [hact] at ha hinv
    simp only [Call.step, hact]
    split
    · exact hsame
    · exact .attempt hb hk.txn hinv.1 (fun hw => hinv.2 (.inl hw)) ha _
  | fetching q use =>
    rw [hact] at ha
    simp only [Call.step, hact]
    split
    · trivial
    · exact ha
  | working q f use =>
    rw [hact] at ha hinv
    simp only [Call.step, hact]
    exact .useFrame hb hk.installs hinv.2.1 hinv.2.2.1 ha
  | dropping i =>
    rw [hact] at ha
    simp only [Call.step, hact]
    split
    · trivial
    · exact .tryNext fun hs => absurd hs ha
  | counting i =>
    rw [hact] at ha hinv
    simp only [Call.step, hact]
    split
    · trivial
    · rename_i pages hnum
      refine .tryNext fun hs => ⟨ha hs, ?_⟩
      rw [Tables.numPages_of_heap hi.sound hinv, hs] at hnum
      split at hnum
      · rw [← Except.ok.inj hnum]
        exact hb.pages
      · cases hnum
  | growing i =>
    rw [hact] at ha
    simp only [Call.step, hact]
    split
    · trivial
    · exact fun hs => absurd hs ha
  | installing fs =>
    rw [hact] at hinv
    rcases hinv.installing_cases with rfl | ⟨f, -, rfl, -, -⟩
    · simp only [Call.step, hact]
      trivial
    · simp only [Call.step, hact]
      split
      · trivial
      · exact fun g hg => absurd hg List.not_mem_nil
  | releasing commit res =>
    simp only [Call.step, hact]
    trivial
  | ending commit res =>
    simp only [Call.step, hact]
    trivial
  | finished res =>
    simp only [Call.step, hact]
    trivial

/-- What others do does not make a call install another page. -/
theorem Activity.Waits.rely {P' : Pool Tables} {h' : History} (hk : TaskInv P h u k)
    (ha : k.call.activity.Waits s n P) (hr : Rely u P P' h h') : k.call.activity.Waits s n P' := by
  have hinv := hk.activity
  cases hact : k.call.activity with
  | installing fs =>
    rw [hact] at ha hinv
    rcases hinv.installing_cases with rfl | ⟨f, d, rfl, -, hd⟩
    · exact fun g hg => absurd hg List.not_mem_nil
    · intro g hg
      have hsame := ha g hg
      rw [List.mem_singleton.1 hg] at hsame ⊢
      rw [hr.page_eq hd.image hd.writable.held]
      exact hsame
  | _ =>
    rw [hact] at ha
    exact ha

/-- Whoever installs none of these pages is not seen to change one. -/
theorem Activity.Waits.own_events (hk : TaskInv P h u k) (ha : k.call.activity.Waits s n P)
    (hp : LaterPages s n p) (hown : History.own u p h = none) (Q : Pool Tables) (c : Call) :
    History.own u p (k.events P Q c ++ h) = none := by
  unfold Task.events
  split
  · rw [hk.txn]
    exact if_pos rfl
  · exact hown
  · split <;> exact hown
  · rename_i f fs hact
    rw [hact] at ha
    split
    · have hne : ¬(k.call.txn = u ∧ (P.page f).id = p) := fun hboth =>
        ha f List.mem_cons_self (hboth.2 ▸ hp)
      exact (if_neg hne).trans hown
    · exact hown
  · exact hown

end Waits

/-! ## Calls that serve no insert -/

section Requests

variable {P : Pool Tables} {h : History} {t u : TxnId} {q : Request} {tuple : Tuple} {draft : Option PageData}
  {s : TableId} {n : Nat} {K K' : PageId → Prop} {a : Activity}

theorem not_placing (hq : ∀ table y, q ≠ .insert table y) (x : HeapFile) : ¬Placing q tuple x := by
  rintro ⟨table, y, hins, -⟩
  exact hq table y hins

/-- A call that serves no insert does not put a row anywhere. -/
theorem RowUse.ne_place {d : Tables} {p : PageId} {use : Use} (hu : RowUse d q tuple p use)
    (hq : ∀ table y, q ≠ .insert table y) (i : Insertion) : use ≠ .place i := by
  rintro rfl
  exact not_placing hq i.heap hu

/-- It gives back no page at all, as long as it does not end its transaction. -/
theorem RowActivity.spares (hr : RowActivity P h t q tuple draft a) (hq : ∀ table y, q ≠ .insert table y)
    (ha : a.Spares K) : a.Spares K' := by
  cases a with
  | start r => exact ha
  | locking p m use => exact Use.spares_of_ne (RowUse.ne_place hr hq)
  | sleeping ticket p m use => exact Use.spares_of_ne (RowUse.ne_place hr hq)
  | fetching p use => exact Use.spares_of_ne (RowUse.ne_place hr hq)
  | working p f use => exact Use.spares_of_ne (RowUse.ne_place hr hq)
  | dropping i => exact absurd hr (not_placing hq _)
  | releasing commit res => exact ha
  | ending commit res => exact ha
  | _ => trivial

/-- It does not wait as an insert does, and the page that it installs is one that there is. -/
theorem RowActivity.waits (hr : RowActivity P h u q tuple draft a) {edits : Bool}
    (hinv : ActivityInv P h u edits draft a) (hq : ∀ table y, q ≠ .insert table y)
    (hpast : ∀ p, LaterPages s n p → ¬P.storage.HasPage p) : a.Waits s n P := by
  cases a with
  | locking p m use => exact (Use.elsewhere_of_ne (RowUse.ne_place hr hq)).atFirst
  | sleeping ticket p m use => exact (Use.elsewhere_of_ne (RowUse.ne_place hr hq)).atFirst
  | fetching p use => exact Use.elsewhere_of_ne (RowUse.ne_place hr hq)
  | working p f use => exact Use.elsewhere_of_ne (RowUse.ne_place hr hq)
  | dropping i => exact absurd hr (not_placing hq _)
  | counting i => exact absurd hr (not_placing hq _)
  | growing i => exact absurd hr (not_placing hq _)
  | installing fs =>
    rcases hinv.installing_cases with rfl | ⟨f, d, rfl, -, hd⟩
    · exact fun g hg => absurd hg List.not_mem_nil
    · intro g hg hlater
      rw [List.mem_singleton.1 hg] at hlater
      exact hpast _ hlater hd.image.hasPage
  | _ => trivial

end Requests

/-! ## What a section leaves of the files -/

namespace World

section Sections

variable {origin : PageId → PageData} {w : World} {t u : TxnId} {k : Task} {s : TableId} {m n : Nat}
  {p : PageId}

/-- The contents of a page change only with a commit of a transaction that has changed it. -/
theorem Inv.contents_advance (hw : w.Inv origin) (hk : w.tasks u = some k) (hrule : k.rule = none)
    (hend : (∃ b, k.call.activity = .start (.complete b)) → History.own u p w.history = none)
    (hp : p.pageNo < w.pool.storage.pages p.table) :
    (w.advance u).pool.storage.contents p = w.pool.storage.contents p := by
  have hrun := advance_of_plain hk hrule
  have hk' := hw.tasks u k hk
  by_cases hends : ∃ b, k.call.activity = .start (.complete b)
  · have hnone := hend hends
    obtain ⟨b, hact⟩ := hends
    have hhist : (w.advance u).history = .ended u b :: w.history := by
      rw [hrun]
      simp only [runSection, Task.events, hact, hk'.txn, List.cons_append, List.nil_append]
    have hstored : (w.advance u).pool.storage.contents p = History.committed origin p (w.advance u).history :=
      (hw.advance u).pool.stored p
    rw [hstored, hw.pool.stored p, hhist]
    cases b with
    | true => rw [History.committed, hnone, Option.getD_none]
    | false => rfl
  rw [hrun]
  show (k.call.step w.pool).1.storage.contents p = _
  by_cases hgrows : ∃ i, k.call.activity = .growing i
  · obtain ⟨i, hact⟩ := hgrows
    exact (storage_growing hw.pool.sound hk' hact).1.old p hp
  · rw [storage_step hw.pool.sound hk' (fun b hb => hends ⟨b, hb⟩) fun i hg => hgrows ⟨i, hg⟩]

theorem Inv.pages_advance (hw : w.Inv origin) (hk : w.tasks u = some k) (hrule : k.rule = none)
    (hgrow : ∀ i, k.call.activity = .growing i → i.heap.table ≠ s) :
    (w.advance u).pool.storage.pages s = w.pool.storage.pages s := by
  rw [advance_of_plain hk hrule]
  exact (hw.pool_of_task hk).pages_step (hw.tasks u k hk) hgrow

/-- The pages that a section adds to a table are blank. -/
theorem Inv.padded_advance (hw : w.Inv origin) (hk : w.tasks u = some k) (hrule : k.rule = none) (s : TableId) :
    w.pool.storage.pages s ≤ (w.advance u).pool.storage.pages s ∧
    ∀ p, p.table = s → w.pool.storage.pages s ≤ p.pageNo → p.pageNo < (w.advance u).pool.storage.pages s →
      (w.advance u).pool.storage.contents p = PageData.zeros := by
  by_cases hgrows : ∃ i, k.call.activity = .growing i
  · obtain ⟨i, hact⟩ := hgrows
    obtain ⟨hp, -⟩ := storage_growing hw.pool.sound (hw.tasks u k hk) hact
    rw [advance_of_plain hk hrule]
    refine ⟨hp.pages s, ?_⟩
    rintro p rfl hle hlt
    exact hp.new p hle hlt
  · rw [hw.pages_advance hk hrule fun i hg => absurd ⟨i, hg⟩ hgrows]
    exact ⟨Nat.le_refl _, fun p _ hle hlt => absurd hlt (Nat.not_lt.2 hle)⟩

end Sections

/-! ## While the first page is held -/

/-- `t` holds the first `m` pages of a table, at least one, and goes on to hold them. Nobody else inserts into
the table, and the pages that the table has from number `n` on are blank but for what `t` has put there. -/
structure Guarded (t : TxnId) (s : TableId) (m n : Nat) (w : World) : Prop where
  first : 0 < m
  counted : 0 < n
  pages : n ≤ w.pool.storage.pages s
  held : ∀ p, FirstPages s m p → (w.pool.locks.modeOf p t).isSome
  spares : ∀ k, w.tasks t = some k → k.call.activity.Spares (FirstPages s m)
  waits : ∀ u k, u ≠ t → w.tasks u = some k → k.call.activity.Waits s n w.pool
  blank : ∀ p, LaterPages s n p → p.pageNo < w.pool.storage.pages s → w.pool.storage.contents p = PageData.zeros
  untouched : ∀ u p, u ≠ t → LaterPages s n p → History.own u p w.history = none

section Guarded

variable {origin : PageId → PageData} {w : World} {t u : TxnId} {k : Task} {s : TableId} {m n : Nat}
  {p : PageId}

theorem Guarded.barred (hg : w.Guarded t s m n) (hu : u ≠ t) : Barred w.pool w.history u s n where
  pages := Nat.lt_of_lt_of_le hg.counted hg.pages
  taken := ⟨t, hu.symm, hg.held _ ⟨rfl, hg.first⟩⟩
  blank p hp hpage := hg.blank p hp (hp.1 ▸ hpage.1)
  untouched p hp := hg.untouched u p hu hp

/-- A request is a concern if it ends the transaction that holds the page. -/
theorem Guarded.request (hg : w.Guarded t s m n) {r : Request} (hr : (Action.request u r).ThroughPool)
    (hend : u = t → ∀ b, r ≠ .complete b) : (w.act (.request u r)).Guarded t s m n where
  first := hg.first
  counted := hg.counted
  pages := hg.pages
  held := hg.held
  spares k hk := by
    by_cases hu : u = t
    · obtain rfl : { call := Call.ofRequest u r } = k := by
        simpa [World.act, World.setTask, hu] using hk
      rw [(installs_ofRequest hr).2.2]
      exact hend hu
    · exact hg.spares k (by simpa [World.act, World.setTask, Ne.symm hu] using hk)
  waits v k hv hk := by
    by_cases hu : v = u
    · subst hu
      obtain rfl : { call := Call.ofRequest v r } = k := by
        simpa [World.act, World.setTask] using hk
      rw [(installs_ofRequest hr).2.2]
      trivial
    · exact hg.waits v k hv (by simpa [World.act, World.setTask, hu] using hk)
  blank := hg.blank
  untouched := hg.untouched

theorem Guarded.register (hg : w.Guarded t s m n) (hw : w.Inv origin) {file : HeapFile}
    (hf : w.pool.storage.Fresh file) : (w.act (.register file)).Guarded t s m n := by
  have hne := hf.table_ne hw.pool.sound (Nat.lt_of_lt_of_le hg.counted hg.pages)
  have hpages : (w.act (.register file)).pool.storage.pages s = w.pool.storage.pages s :=
    Tables.pages_register hne
  refine ⟨hg.first, hg.counted, hpages ▸ hg.pages, hg.held, hg.spares, hg.waits, ?_, hg.untouched⟩
  rintro p ⟨rfl, hp⟩ hlt
  exact (Tables.contents_register hne).trans (hg.blank p ⟨rfl, hp⟩ (hpages ▸ hlt))

/-- **A section of whatever call leaves the table guarded.** -/
theorem Guarded.advance (hg : w.Guarded t s m n) (hw : w.Inv origin) (hk : w.tasks u = some k)
    (hrule : k.rule = none) : (w.act (.advance u)).Guarded t s m n := by
  have hrun := advance_of_plain hk hrule
  have hpool := hw.pool_of_task hk
  have hk' := hw.tasks u k hk
  have hrely : ∀ v, v ≠ u → Rely v w.pool (w.advance u).pool w.history (w.advance u).history := by
    rw [hrun]
    exact (servesNext hpool hk' (hw.unclaimed u) fun _ _ _ => hrule).keeps.rely
  have htasks : ∀ v k', v ≠ u → (w.advance u).tasks v = some k' → w.tasks v = some k' :=
    fun v k' hv h => (w.tasks_advance_of_ne hv).symm.trans h
  have hself : ∀ k', (w.advance u).tasks u = some k' → k'.call = (k.call.step w.pool).2 := by
    intro k' h
    rw [hrun] at h
    have hafter : k.after (k.call.step w.pool).1 (k.call.step w.pool).2 = some k' := by
      simpa [runSection] using h
    unfold Task.after at hafter
    split at hafter
    · cases hafter
    · rw [← Option.some.inj hafter]
  obtain ⟨hle, hnew⟩ := hw.padded_advance hk hrule s
  refine ⟨hg.first, hg.counted, Nat.le_trans hg.pages hle, ?_, ?_, ?_, ?_, ?_⟩
  · intro p hp
    by_cases hu : u = t
    · subst hu
      show ((w.advance u).pool.locks.modeOf p u).isSome
      rw [hrun]
      exact hk'.held_step hpool (hg.spares k hk) hp (hg.held p hp)
    · show ((w.advance u).pool.locks.modeOf p t).isSome
      rw [(hrely t (Ne.symm hu)).modes]
      exact hg.held p hp
  · intro k₁ hk₁
    by_cases hu : u = t
    · subst hu
      rw [hself k₁ hk₁]
      exact (hg.spares k hk).step hpool hk' hg.held
    · exact hg.spares k₁ (htasks t k₁ (Ne.symm hu) hk₁)
  · intro v k₁ hv hk₁
    by_cases hu : v = u
    · subst hu
      rw [hself k₁ hk₁]
      show (k.call.step w.pool).2.activity.Waits s n (w.advance v).pool
      rw [hrun]
      exact (hg.waits v k hv hk).step hpool hk' (hg.barred hv)
    · have hold := htasks v k₁ hu hk₁
      exact (hg.waits v k₁ hv hold).rely (hw.tasks v k₁ hold) (hrely v hu)
  · intro p hp hlt
    by_cases hold : p.pageNo < w.pool.storage.pages s
    · rw [← hg.blank p hp hold]
      refine hw.contents_advance hk hrule (fun hends => ?_) (hp.1 ▸ hold)
      by_cases hu : u = t
      · subst hu
        obtain ⟨b, hact⟩ := hends
        have hspares := hg.spares k hk
        rw [hact] at hspares
        exact absurd rfl (hspares b)
      · exact hg.untouched u p hu hp
    · exact hnew p hp.1 (Nat.not_lt.1 hold) hlt
  · intro v p hv hp
    by_cases hu : v = u
    · subst hu
      show History.own v p (w.advance v).history = none
      rw [hrun]
      exact (hg.waits v k hv hk).own_events hk' hp (hg.untouched v p hv hp) _ _
    · exact ((hrely v hu).own p).trans (hg.untouched v p hv hp)

end Guarded

end World

end PageEngine
