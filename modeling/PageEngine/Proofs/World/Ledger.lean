import PageEngine.Proofs.World.Requests

/-!
# `Proofs/World/Ledger.lean` — runs with an account of the rows

A ledger is a world together with what the clients have asked for and what has come of it for the rows: an
insert that changes a page puts the row of its request under the record id that it returns, a delete takes
away the row of the record id that it was given, and the ends of transactions are written down.

> **in every run whose clients leave the bytes of pages to inserts and deletes, the pages hold the rows of
> the ledger.**
-/

set_option autoImplicit false

namespace PageEngine

open Std

/-- The row events of a section that serves a request, from what it is seen to do. -/
def Event.rowEvents (asked : Option Request) (placed : Tuple) : Event → List RowEvent
  | .stored t _ _ => ((asked.bind (·.rowChange placed)).map fun x => .changed t x.1 x.2).toList
  | .ended t commit => [.ended t commit]
  | _ => []

/-- A world and the account of its rows. -/
structure Ledger where
  world : World
  /-- The request that the call of a transaction serves. -/
  asked : TxnId → Option Request
  rows : RowHistory

namespace Ledger

/-- The ledger of a pool at which nobody is. -/
def start (P : Pool Tables) : Ledger := ⟨World.start P, fun _ => none, []⟩

/-- The row events of an action. -/
def newRows (ℓ : Ledger) : Action → List RowEvent
  | .advance t =>
    match ℓ.world.tasks t with
    | none => []
    | some k =>
      let (P, c) := k.call.step ℓ.world.pool
      (k.events ℓ.world.pool P c).flatMap (Event.rowEvents (ℓ.asked t) c.tuple)
  | .register h => [.registered h.table (ℓ.world.pool.storage.register (.heap h)).rowAt]
  | _ => []

def nextAsked (ℓ : Ledger) : Action → TxnId → Option Request
  | .request t r => Function.update ℓ.asked t (some r)
  | _ => ℓ.asked

def act (ℓ : Ledger) (a : Action) : Ledger where
  world := ℓ.world.act a
  asked := ℓ.nextAsked a
  rows := ℓ.newRows a ++ ℓ.rows

def run (ℓ : Ledger) (as : List Action) : Ledger := as.foldl act ℓ

/-- The row that is live for a transaction, in a run that has begun with the tables `d`. -/
def live (ℓ : Ledger) (d : Tables) (t : TxnId) (r : RecordId) : Option Bytes :=
  RowHistory.live d.rowAt t r ℓ.rows

end Ledger

/-- The action leaves the bytes of pages to the requests for rows. -/
def Action.RowWise : Action → Prop
  | .edit .. => False
  | a => a.ThroughPool

theorem Action.RowWise.throughPool {a : Action} (ha : a.RowWise) : a.ThroughPool := by
  cases a with
  | edit t p rule => exact ha.elim
  | request t r => exact ha
  | advance t => exact ha
  | register file => exact ha

/-- The ledgers to which runs of a new pool come whose clients ask for rows. -/
inductive Ledger.Reachable (P : Pool Tables) : Ledger → Prop
  | start : Reachable P (Ledger.start P)
  | step {ℓ : Ledger} {a : Action} :
      Reachable P ℓ → a.Enabled ℓ.world → a.RowWise → Reachable P (ℓ.act a)

/-! ## What a section does to the rows -/

section Sections

variable {origin : PageId → PageData} {others others' : FrameId → Prop} {P P' : Pool Tables}
  {h : History} {t : TxnId} {r : Request} {k : Task} {f : FrameId} {rows : RecordId → Option Bytes}
  {L : RowHistory}

/-- A section in which a call gets its result changes no row. -/
theorem Task.rowEvents_of_finished {c : Call} {asked : Option Request} {res : Except Error Answer}
    (hend : ∀ b, k.call.activity ≠ .start (.complete b)) (hres : c.activity = .finished res) :
    (k.events P P' c).flatMap (Event.rowEvents asked c.tuple) = [] := by
  have hsome : c.result? = some res := by simp only [Call.result?, hres]
  unfold Task.events
  split
  · rename_i b hact
    exact absurd hact (hend b)
  · rfl
  · split <;> rfl
  · rw [hsome]
    rfl
  · rfl

/-- A section that neither ends a transaction nor grows a file nor installs a frame changes no row. -/
theorem RowsAgree.quiet (ha : RowsAgree rows P.storage h L) (hs : P'.storage = P.storage)
    {evs : List Event} (hown : ∀ u q, History.own u q (evs ++ h) = History.own u q h) :
    RowsAgree rows P'.storage (evs ++ h) L := by
  rw [hs]
  refine ha.of_grown rfl (fun _ => Nat.le_refl _) (fun _ _ => rfl) ?_ hown
  exact fun q hle hlt => absurd hlt (Nat.not_lt.2 hle)

theorem RowsAgree.complete (ha : RowsAgree rows P.storage h L) (hi : PoolInv origin others P h)
    (hk : TaskInv P h t k) {b : Bool} (hact : k.call.activity = .start (.complete b))
    (hi' : PoolInv origin others' (k.call.step P).1 (.ended t b :: h)) :
    RowsAgree rows (k.call.step P).1.storage (.ended t b :: h) (.ended t b :: L) := by
  have hcat := hi.catalog_step hk
  have hpages : ∀ s, (k.call.step P).1.storage.pages s = P.storage.pages s :=
    fun s => hi.pages_step hk (by simp [hact])
  have hcontents : ∀ q, (k.call.step P).1.storage.contents q =
      History.committed origin q (.ended t b :: h) := hi'.stored
  cases b with
  | true =>
    refine ha.commit hi hcat hpages fun q => ?_
    rw [hcontents, shown, hi.stored]
    rfl
  | false => exact ha.abort hcat hpages (fun q => (hcontents q).trans (hi.stored q).symm) t

theorem RowsAgree.grow (ha : RowsAgree rows P.storage h L) (hi : PoolInv origin others P h)
    (hk : TaskInv P h t k) {i : Insertion} (hact : k.call.activity = .growing i) {evs : List Event}
    (hown : ∀ u q, History.own u q (evs ++ h) = History.own u q h) :
    RowsAgree rows (k.call.step P).1.storage (evs ++ h) L := by
  obtain ⟨hp, -⟩ := storage_growing hi.sound hk hact
  exact ha.of_grown hp.catalog hp.pages hp.old hp.new hown

theorem RowsAgree.install (ha : RowsAgree rows P.storage h L) (hi : PoolInv origin others P h)
    (hk : TaskInv P h t k) (hr : RowTask P h t r k) (hact : k.call.activity = .installing [f]) :
    RowsAgree rows (k.call.step P).1.storage
      (k.events P (k.call.step P).1 (k.call.step P).2 ++ h)
      ((k.events P (k.call.step P).1 (k.call.step P).2).flatMap
        (Event.rowEvents (some r) (k.call.step P).2.tuple) ++ L) := by
  have hstorage := storage_step hi.sound hk (by simp [hact]) (by simp [hact])
  have hinv := hk.activity
  have hrow := hr.activity
  rw [hact] at hinv hrow
  obtain ⟨d, hdraft, hd⟩ := hinv
  obtain ⟨y, hy, x, slot, row, hx, hchange, hrows⟩ := hrow
  obtain rfl : d = y := Option.some.inj (hdraft.symm.trans hy)
  rcases hinst : P.install t f with ⟨Q, res⟩
  cases res with
  | error e =>
    have hev : k.events P (k.call.step P).1 (k.call.step P).2 = [] := by
      simp only [Task.events, Call.step, hact, hk.txn, hinst, hdraft, Call.result?, Call.fail,
        Call.finish, Call.goOn]
    rw [hev]
    exact ha.quiet hstorage fun _ _ => rfl
  | ok u =>
    have hev : k.events P (k.call.step P).1 (k.call.step P).2 = [.stored t (P.page f).id d] := by
      simp only [Task.events, Call.step, hact, hk.txn, hinst, hdraft, Call.result?, Call.goOn]
    have htuple : (k.call.step P).2.tuple = k.call.tuple := by
      simp only [Call.step, hact, hk.txn, hinst, Call.goOn]
    have hnew : [Event.stored t (P.page f).id d].flatMap (Event.rowEvents (some r) k.call.tuple) =
        [.changed t ⟨(P.page f).id, slot⟩ row] := by
      simp [Event.rowEvents, hchange]
    rw [hev, htuple, hnew]
    exact ha.store (by rw [hstorage]) (fun s => by rw [hstorage]) (fun q => by rw [hstorage]) hx
      hd.image.hasPage.1 hrows

/-- **Every section changes the rows as the ledger tells.** -/
theorem RowsAgree.step (ha : RowsAgree rows P.storage h L) (hi : PoolInv origin others P h)
    (hk : TaskInv P h t k) (hr : RowTask P h t r k)
    (hi' : PoolInv origin others' (k.call.step P).1
      (k.events P (k.call.step P).1 (k.call.step P).2 ++ h)) :
    RowsAgree rows (k.call.step P).1.storage
      (k.events P (k.call.step P).1 (k.call.step P).2 ++ h)
      ((k.events P (k.call.step P).1 (k.call.step P).2).flatMap
        (Event.rowEvents (some r) (k.call.step P).2.tuple) ++ L) := by
  by_cases hend : ∃ b, k.call.activity = .start (.complete b)
  · obtain ⟨b, hact⟩ := hend
    have hev : k.events P (k.call.step P).1 (k.call.step P).2 = [.ended t b] := by
      simp only [Task.events, hact, hk.txn]
    rw [hev] at hi' ⊢
    exact ha.complete hi hk hact hi'
  by_cases hgrow : ∃ i, k.call.activity = .growing i
  · obtain ⟨i, hact⟩ := hgrow
    have hev : ∃ evs, k.events P (k.call.step P).1 (k.call.step P).2 = evs ∧
        (∀ u q, History.own u q (evs ++ h) = History.own u q h) ∧
        evs.flatMap (Event.rowEvents (some r) (k.call.step P).2.tuple) = [] := by
      simp only [Task.events, hact]
      split
      · exact ⟨[], rfl, fun _ _ => rfl, rfl⟩
      · exact ⟨_, rfl, fun _ _ => rfl, rfl⟩
    obtain ⟨evs, hev, hown, hnone⟩ := hev
    rw [hev, hnone]
    exact ha.grow hi hk hact hown
  have hstorage := storage_step hi.sound hk (fun b hb => hend ⟨b, hb⟩) fun i hg => hgrow ⟨i, hg⟩
  by_cases hinst : ∃ f, k.call.activity = .installing [f]
  · obtain ⟨f, hact⟩ := hinst
    exact ha.install hi hk hr hact
  · -- What is left hands out a page at most.
    have hev : ∃ evs, k.events P (k.call.step P).1 (k.call.step P).2 = evs ∧
        (∀ u q, History.own u q (evs ++ h) = History.own u q h) ∧
        evs.flatMap (Event.rowEvents (some r) (k.call.step P).2.tuple) = [] := by
      unfold Task.events
      split
      · rename_i b hact
        exact absurd ⟨b, hact⟩ hend
      · exact ⟨_, rfl, fun _ _ => rfl, rfl⟩
      · rename_i i hact
        exact absurd ⟨i, hact⟩ hgrow
      · rename_i f fs hact
        have hinv := hk.activity
        rw [hact] at hinv
        rcases hinv.installing_cases with hnil | ⟨g, -, hone, -, -⟩
        · cases hnil
        · cases hone
          exact absurd ⟨f, hact⟩ hinst
      · exact ⟨[], rfl, fun _ _ => rfl, rfl⟩
    obtain ⟨evs, hev, hown, hnone⟩ := hev
    rw [hev, hnone]
    exact ha.quiet hstorage hown

end Sections

/-! ## Along every run -/

namespace Ledger

variable {d : Tables} {ℓ : Ledger} {t : TxnId}

/-- What holds of a ledger between any two sections. -/
structure Inv (d : Tables) (ℓ : Ledger) : Prop where
  world : ℓ.world.Inv d.contents
  rows : RowsAgree d.rowAt ℓ.world.pool.storage ℓ.world.history ℓ.rows
  tasks : ∀ t k, ℓ.world.tasks t = some k →
    ∃ r, ℓ.asked t = some r ∧ RowTask ℓ.world.pool ℓ.world.history t r k

theorem inv_start {capacity : Nat} {draws : Draws} {P : Pool Tables}
    (hP : Pool.create capacity draws d = .ok P) (hd : d.Sound) : Inv d (start P) := by
  obtain ⟨-, rfl⟩ := Pool.create_ok hP
  refine ⟨World.inv_start hP hd, ⟨fun r => rfl, ?_, fun _ _ _ _ => rfl⟩, ?_⟩
  · intro u p y x hy
    cases hy
  · intro u k hk
    cases hk

/-- A call that begins knows its request. -/
theorem rowTask_ofRequest {P : Pool Tables} {h : History} {r : Request}
    (hr : (Action.request t r).ThroughPool) : RowTask P h t r { call := Call.ofRequest t r } := by
  refine ⟨rfl, ?_⟩
  show RowActivity P h t r (Call.ofRequest t r).tuple none (Call.ofRequest t r).activity
  rw [(World.installs_ofRequest hr).2.2]
  refine ⟨rfl, fun table asked he => ?_⟩
  rw [he]
  rfl

theorem Inv.request (hℓ : ℓ.Inv d) (hidle : ℓ.world.tasks t = none) {r : Request}
    (hr : (Action.request t r).ThroughPool) : (ℓ.act (.request t r)).Inv d where
  world := hℓ.world.request hidle hr
  rows := hℓ.rows
  tasks u k hk := by
    by_cases hu : u = t
    · subst hu
      refine ⟨r, Function.update_self _ _ _, ?_⟩
      obtain rfl : { call := Call.ofRequest u r } = k := by
        simpa [act, World.act, World.setTask] using hk
      exact rowTask_ofRequest hr
    · obtain ⟨q, hq, htask⟩ := hℓ.tasks u k (by simpa [act, World.act, World.setTask, hu] using hk)
      exact ⟨q, by simpa [act, nextAsked, hu] using hq, htask⟩

theorem Inv.advance (hℓ : ℓ.Inv d) (t : TxnId) : (ℓ.act (.advance t)).Inv d := by
  have hworld := hℓ.world.advance t
  cases hk : ℓ.world.tasks t with
  | none =>
    have hsame : ℓ.act (.advance t) = ℓ := by
      simp only [act, nextAsked, newRows, World.act, World.advance, hk, List.nil_append]
    rw [hsame]
    exact hℓ
  | some k =>
    obtain ⟨r, hasked, hr⟩ := hℓ.tasks t k hk
    have hrun : ℓ.world.act (.advance t) = ℓ.world.runSection t k :=
      World.advance_of_plain hk hr.plain
    have hnew : ℓ.newRows (.advance t) =
        (k.events ℓ.world.pool (k.call.step ℓ.world.pool).1 (k.call.step ℓ.world.pool).2).flatMap
          (Event.rowEvents (some r) (k.call.step ℓ.world.pool).2.tuple) := by
      simp only [newRows, hk, hasked]
    have hserves := servesNext (hℓ.world.pool_of_task hk) (hℓ.world.tasks t k hk)
      (hℓ.world.unclaimed t) fun _ _ _ => hr.plain
    refine ⟨hworld, ?_, ?_⟩
    · show RowsAgree d.rowAt (ℓ.world.act (.advance t)).pool.storage
        (ℓ.world.act (.advance t)).history (ℓ.newRows (.advance t) ++ ℓ.rows)
      rw [hrun, hnew]
      exact hℓ.rows.step hℓ.world.pool (hℓ.world.tasks t k hk) hr hserves.keeps.pool
    · intro u k' hk'
      change (ℓ.world.act (.advance t)).tasks u = some k' at hk'
      show ∃ q, ℓ.asked u = some q ∧ RowTask (ℓ.world.act (.advance t)).pool
        (ℓ.world.act (.advance t)).history u q k'
      rw [hrun] at hk' ⊢
      by_cases hu : u = t
      · subst hu
        refine ⟨r, hasked, ?_⟩
        have hafter : k.after (k.call.step ℓ.world.pool).1 (k.call.step ℓ.world.pool).2 =
            some k' := by simpa [World.runSection] using hk'
        unfold Task.after at hafter
        split at hafter
        · cases hafter
        · obtain rfl := Option.some.inj hafter
          exact ⟨hr.plain, hr.step hℓ.world.pool (hℓ.world.tasks u k hk)⟩
      · have hk' : ℓ.world.tasks u = some k' := by simpa [World.runSection, hu] using hk'
        obtain ⟨q, hq, htask⟩ := hℓ.tasks u k' hk'
        exact ⟨q, hq, htask.rely (hℓ.world.tasks u k' hk') (hserves.keeps.rely u hu)⟩

theorem Inv.register (hℓ : ℓ.Inv d) {file : HeapFile} (hf : ℓ.world.pool.storage.Fresh file) :
    (ℓ.act (.register file)).Inv d where
  world := hℓ.world.register hf
  rows := hℓ.rows.register hℓ.world.pool hf _
  tasks u k hk := by
    obtain ⟨q, hq, htask⟩ := hℓ.tasks u k hk
    exact ⟨q, hq, htask.rely (hℓ.world.tasks u k hk)
      (.of_grown (Tables.grown_register hℓ.world.pool.sound hf) fun _ => rfl)⟩

/-- **Every action keeps the rows in the pages.** -/
theorem Inv.act (hℓ : ℓ.Inv d) {a : Action} (ha : a.Enabled ℓ.world) (hkind : a.RowWise) :
    (ℓ.act a).Inv d := by
  cases a with
  | request t r => exact hℓ.request ha hkind
  | edit t p rule => exact hkind.elim
  | advance t => exact hℓ.advance t
  | register file => exact hℓ.register ha

/-- **In every ledger that a run comes to, the pages hold the rows.** -/
theorem Reachable.inv {capacity : Nat} {draws : Draws} {P : Pool Tables}
    (hP : Pool.create capacity draws d = .ok P) (hd : d.Sound) (h : Reachable P ℓ) : ℓ.Inv d := by
  induction h with
  | start => exact inv_start hP hd
  | step _ ha hkind ih => exact ih.act ha hkind

end Ledger

end PageEngine
