import PageEngine.Proofs.World.Extension
import PageEngine.Proofs.World.Twins

/-!
# `Proofs/World/Replies.lean` — the choices of eviction cannot be told from the replies

Two pools are made over the same stores, with different choices of eviction, and the same actions are taken at
both. From the first eviction on they cache different pages. But they stay alike, their calls stay twins
(`World.Twins`), and so

> **every client is told the same at every step, and the stores end the same**,

also which calls fail because there is no room. What differs is how often a page has to be read.

The sizes of the files are the one thing that can tell the two apart. A table with more pages than page
numbers count cannot be read any more, and there it shows which of its pages are cached
(`Proofs/World/Outgrown.lean`).
-/

set_option autoImplicit false

namespace PageEngine

open Std Pool

namespace World

/-! ## What is said in a run -/

/-- What the client of a transaction is told when its call runs the next section. A client that overwrites a
page is told what was in it. -/
def replyTo (w : World) (t : TxnId) : Option Reply :=
  match w.tasks t with
  | none => none
  | some k =>
    match k.rule, k.call.activity with
    | some _, .fetching p _ =>
      let (P, r) := w.pool.fetch p
      some ⟨r.map fun f => (Answer.frame f).seen P, k.call.tuple⟩
    | _, _ =>
      let (P, c) := k.call.step w.pool
      c.told P

def reply (w : World) : Action → Option Reply
  | .advance t => w.replyTo t
  | _ => none

/-- What is said in each step of a run. -/
def replies (w : World) : List Action → List (Option Reply)
  | [] => []
  | a :: as => w.reply a :: (w.act a).replies as

/-- Every action of a run is one that can happen then, and leaves the bytes of the stores to the pool. -/
def Lawful (w : World) : List Action → Prop
  | [] => True
  | a :: as => a.Enabled w ∧ a.ThroughPool ∧ (w.act a).Lawful as

/-! ## Twin worlds -/

/-- The pools are alike, the calls in flight are twins, and the same has happened. -/
structure Twins (w v : World) : Prop where
  pool : Alike w.pool v.pool
  tasks : ∀ t, Option.Rel (Task.Twin w.pool v.pool) (w.tasks t) (v.tasks t)
  history : v.history = w.history

/-- A world in which no call on a file fails. -/
structure Sane (origin : PageId → PageData) (n : Nat) (w : World) : Prop where
  inv : w.Inv origin
  kept : w.Kept n
  counted : w.pool.storage.Counted

section Steps

variable {origin : PageId → PageData} {n : Nat} {w v : World} {t : TxnId} {k m : Task} {R S : Pool Tables}
  {p : PageId} {f : FrameId}

theorem Sane.ready (hw : Sane origin n w) : Ready n w.pool :=
  ⟨hw.kept.pool, hw.inv.pool.sound, fun p f hf => (hw.inv.pool.cached p f hf).image.hasPage, hw.counted⟩

theorem Twins.of_some (h : Twins w v) (hk : w.tasks t = some k) :
    ∃ m, v.tasks t = some m ∧ Task.Twin w.pool v.pool k m := by
  have ht := h.tasks t
  rw [hk] at ht
  cases hm : v.tasks t with
  | none => rw [hm] at ht; cases ht
  | some m =>
    rw [hm] at ht
    cases ht with
    | some hkm => exact ⟨m, rfl, hkm⟩

theorem Twins.of_none (h : Twins w v) (hk : w.tasks t = none) : v.tasks t = none := by
  have ht := h.tasks t
  rw [hk] at ht
  cases hm : v.tasks t with
  | none => rfl
  | some m => rw [hm] at ht; cases ht

/-- Calls in flight stay twins while the pools go on. -/
theorem Twins.task_of_reaches (h : Twins w v) (hn : 0 < n) (hw : w.Kept n) (hv : v.Kept n)
    (hR : w.pool.Reaches R) (hS : v.pool.Reaches S) (t : TxnId) :
    Option.Rel (Task.Twin R S) (w.tasks t) (v.tasks t) := by
  cases hk : w.tasks t with
  | none =>
    rw [h.of_none hk]
    exact .none
  | some k =>
    obtain ⟨m, hm, hkm⟩ := h.of_some hk
    rw [hm]
    refine .some ⟨hkm.live, hkm.rule, hkm.draft, hkm.call.txn, hkm.call.tuple, hkm.call.installs, ?_⟩
    exact hkm.call.activity.mono (fun f hf => hR.ids readsOwn_tables hn hw.pool (hw.calls t k hk f hf))
      fun g hg => hS.ids readsOwn_tables hn hv.pool (hv.calls t m hm g hg)

/-- The pools go on, and a transaction has twin calls or none. -/
theorem Twins.move (h : Twins w v) (hn : 0 < n) (hw : w.Kept n) (hv : v.Kept n) (hR : w.pool.Reaches R)
    (hS : v.pool.Reaches S) (hRS : Alike R S) {k m : Option Task} (hkm : Option.Rel (Task.Twin R S) k m)
    {hist hist' : History} (hsame : hist' = hist) :
    Twins { pool := R, tasks := Function.update w.tasks t k, history := hist }
      { pool := S, tasks := Function.update v.tasks t m, history := hist' } where
  pool := hRS
  history := hsame
  tasks u := by
    dsimp only
    by_cases hu : u = t
    · subst hu
      rwa [Function.update_self, Function.update_self]
    · rw [Function.update_of_ne hu, Function.update_of_ne hu]
      exact h.task_of_reaches hn hw hv hR hS u

/-! ## A client overwrites a page -/

theorem editPage_of_ok {rule : Rule} (hfetch : w.pool.fetch p = (R, .ok f)) :
    w.editPage t p rule =
      { pool := R.setPage f (((R.page f).withData
          (rule (History.reads t w.history ++ [(R.page f).data]))).markDirty t)
        tasks := Function.update w.tasks t none
        history := .edited t p rule (rule (History.reads t w.history ++ [(R.page f).data])) ::
          .got t p (R.page f).data :: w.history } := by
  simp only [editPage, hfetch]

theorem editPage_of_error {rule : Rule} {e : Error} (hfetch : w.pool.fetch p = (R, .error e)) :
    w.editPage t p rule = { pool := R, tasks := Function.update w.tasks t none, history := w.history } := by
  simp only [editPage, hfetch, setTask]

/-- A client that fetches a page to overwrite it finds in it what its transaction should see. -/
theorem Inv.handed_edit (hw : w.Inv origin) (hk : w.tasks t = some k) {rule : Rule} {use : Use}
    (hrule : k.rule = some rule) (ha : k.call.activity = .fetching p use)
    (hfetch : w.pool.fetch p = (R, .ok f)) : Handed R w.history t p f := by
  have hinv := (hw.tasks t k hk).activity
  rw [ha, hrule] at hinv
  obtain ⟨-, hheld, -⟩ := hinv
  obtain ⟨P, hkeep, -, hl, hcase⟩ := (hw.pool_of_call hk (by simp [ha])).fetch_serves (hw.unclaimed t) hheld
  rcases hcase with ⟨e, he⟩ | ⟨g, hg, hres, hfree⟩
  · cases he.symm.trans hfetch
  · obtain ⟨rfl, hgf⟩ := Prod.mk.inj (hg.symm.trans hfetch)
    obtain rfl := Except.ok.inj hgf
    exact (hkeep.pool.handed hfree (by rw [hl]; exact hheld) hres).1

theorem Twins.editPage (h : Twins w v) (hn : 0 < n) (hw : Sane origin n w) (hv : Sane origin n v)
    (hk : w.tasks t = some k) (hm : v.tasks t = some m) {rule : Rule} {use : Use}
    (hrule : k.rule = some rule) (ha : k.call.activity = .fetching p use) (hrule' : m.rule = some rule)
    (hb : m.call.activity = .fetching p use) :
    Twins (w.editPage t p rule) (v.editPage t p rule) ∧
      (v.pool.fetch p).2.map (fun g => (Answer.frame g).seen (v.pool.fetch p).1) =
        (w.pool.fetch p).2.map fun f => (Answer.frame f).seen (w.pool.fetch p).1 := by
  rcases h.pool.fetch hn hw.ready hv.ready p with
    ⟨R, S, f, g, hR, hS, hRS, hf, hg⟩ | ⟨R, S, e, hR, hS, hRS⟩
  · have hhf := hw.inv.handed_edit hk hrule ha hR
    have hhg := hv.inv.handed_edit hm hrule' hb hS
    rw [h.history] at hhg
    have hdata := hhf.data_alike hRS hhg
    refine ⟨?_, by rw [hR, hS, Except.map, Except.map, Answer.seen, Answer.seen, hhf.image.id_eq,
      hhg.image.id_eq, hdata]⟩
    rw [editPage_of_ok hR, editPage_of_ok hS, h.history, hdata]
    generalize rule (History.reads t w.history ++ [(R.page f).data]) = d
    have hreach := Reaches.of_fetch hR
    have hreach' := Reaches.of_fetch hS
    have hfiled := (hreach.bounded readsOwn_tables hn hw.kept.pool).filed
    have hfiled' := (hreach'.bounded readsOwn_tables hn hv.kept.pool).filed
    have hre := redirtied_setPage hfiled (x := ((R.page f).withData d).markDirty t) rfl (by simp)
      (hhf.image.id_eq ▸ hf)
    have hse := redirtied_setPage hfiled' (x := ((S.page g).withData d).markDirty t) rfl (by simp)
      (hhg.image.id_eq ▸ hg)
    rw [Image.marked_alike hRS hhf.image hhg.image d t] at hse ⊢
    have hid : (R.page f).id = (S.page g).id := hhf.image.id_eq.trans hhg.image.id_eq.symm
    exact h.move hn hw.kept hv.kept
      (hreach.step (o := .touch f (((R.page f).withData d).markDirty t)) rfl)
      (hreach'.step (o := .touch g (((R.page f).withData d).markDirty t)) hid) (hre.alike hRS hse) .none rfl
  · refine ⟨?_, by rw [hR, hS]; rfl⟩
    rw [editPage_of_error hR, editPage_of_error hS, h.history]
    exact h.move hn hw.kept hv.kept (.of_fetch hR) (.of_fetch hS) hRS .none rfl

theorem runSection_eq (w : World) (t : TxnId) (k : Task) :
    w.runSection t k =
      { pool := (k.call.step w.pool).1
        tasks := Function.update w.tasks t (k.after (k.call.step w.pool).1 (k.call.step w.pool).2)
        history := k.events w.pool (k.call.step w.pool).1 (k.call.step w.pool).2 ++ w.history } := rfl

theorem Twins.runSection (h : Twins w v) (hn : 0 < n) (hw : Sane origin n w) (hv : Sane origin n v)
    (hk : w.tasks t = some k) (hm : v.tasks t = some m) (hkm : Task.Twin w.pool v.pool k m) :
    Twins (w.runSection t k) (v.runSection t m) ∧
      (m.call.step v.pool).2.told (m.call.step v.pool).1 = (k.call.step w.pool).2.told (k.call.step w.pool).1 := by
  have hkinv := hw.inv.tasks t k hk
  have hminv := hv.inv.tasks t m hm
  rw [h.history] at hminv
  obtain ⟨hout, hdraft⟩ := hkm.step hn h.pool hw.ready hv.ready hkinv hminv
  have hevents := hkm.events h.pool hout hkinv hminv
  refine ⟨?_, hout.told⟩
  rw [runSection_eq, runSection_eq, hevents, h.history]
  exact h.move hn hw.kept hv.kept (Call.step_reaches hw.kept.pool.filed (hw.kept.calls t k hk)).1
    (Call.step_reaches hv.kept.pool.filed (hv.kept.calls t m hm)).1 hout.pool (hkm.after hout hdraft) rfl

/-! ## One action -/

theorem Twins.advance (h : Twins w v) (hn : 0 < n) (hw : Sane origin n w) (hv : Sane origin n v) (t : TxnId) :
    Twins (w.advance t) (v.advance t) ∧ v.replyTo t = w.replyTo t := by
  cases hk : w.tasks t with
  | none =>
    have hm := h.of_none hk
    simp only [World.advance, replyTo, hk, hm]
    exact ⟨h, trivial⟩
  | some k =>
    obtain ⟨m, hm, hkm⟩ := h.of_some hk
    have hrun := h.runSection hn hw hv hk hm hkm
    have hact := hkm.call.activity
    simp only [World.advance, replyTo, hk, hm, hkm.rule, hkm.call.tuple]
    cases hrule : k.rule with
    | none => exact hrun
    | some rule =>
      generalize ha : k.call.activity = a at hact
      generalize hb : m.call.activity = b at hact
      cases hact with
      | same hnone =>
        cases a with
        | fetching p use =>
          obtain ⟨hedit, hseen⟩ := h.editPage hn hw hv hk hm hrule ha (hkm.rule.trans hrule) hb
          exact ⟨hedit, congrArg (fun r => some (Reply.mk r k.call.tuple)) hseen⟩
        | _ => exact hrun
      | _ => exact hrun

/-- **The same action leads twin worlds to twin worlds, and lets the clients know the same.** -/
theorem Twins.act (h : Twins w v) (hn : 0 < n) (hw : Sane origin n w) (hv : Sane origin n v) (a : Action) :
    Twins (w.act a) (v.act a) ∧ v.reply a = w.reply a := by
  have hbegin : ∀ t r rule, Twins (w.setTask t (some { call := Call.ofRequest t r, rule }))
      (v.setTask t (some { call := Call.ofRequest t r, rule })) := fun t r rule =>
    h.move hn hw.kept hv.kept .refl .refl h.pool
      (.some ⟨Call.live_ofRequest t r, rfl, rfl, rfl, rfl, rfl, .same (Call.images_ofRequest t r)⟩) h.history
  cases a with
  | request t r => exact ⟨hbegin t r none, rfl⟩
  | edit t p rule => exact ⟨hbegin t _ (some rule), rfl⟩
  | advance t => exact h.advance hn hw hv t
  | register file =>
    refine ⟨⟨?_, h.task_of_reaches hn hw.kept hv.kept (.of_restock _ _) (.of_restock _ _), ?_⟩, rfl⟩
    · show Alike { w.pool with storage := w.pool.storage.register (.heap file) }
        { v.pool with storage := v.pool.storage.register (.heap file) }
      rw [h.pool.storage]
      exact h.pool.restock _
    · show .registered file.table (v.pool.storage.disk.bytes file.file.name) :: v.history = _
      rw [h.pool.storage, h.history]
      rfl

theorem Twins.enabled (h : Twins w v) {a : Action} (ha : a.Enabled w) : a.Enabled v := by
  cases a with
  | request t r => exact h.of_none ha
  | edit t p rule => exact h.of_none ha
  | advance t => trivial
  | register file =>
    show v.pool.storage.Fresh file
    rw [h.pool.storage]
    exact ha

end Steps

/-! ## Whole runs -/

section Runs

variable {origin : PageId → PageData} {n : Nat} {w v : World} {t : TxnId} {as bs : List Action}

/-- Tables that can be counted could be counted before: no page is taken away. -/
theorem Inv.counted_of_act (hw : w.Inv origin) {a : Action} (ha : a.Enabled w)
    (hc : (w.act a).pool.storage.Counted) : w.pool.storage.Counted := by
  intro t
  by_contra hlarge
  have hpage : w.pool.storage.HasPage ⟨t, maxPageNo⟩ := ⟨Nat.not_le.1 hlarge, Nat.le_refl _⟩
  exact Nat.not_le.2 ((hw.extends_act ha).hasPage _ hpage).1 (hc t)

theorem Inv.counted_of_run (hw : w.Inv origin) (has : w.Lawful as) (hc : (w.run as).pool.storage.Counted) :
    w.pool.storage.Counted := by
  induction as generalizing w with
  | nil => exact hc
  | cons a as ih =>
    obtain ⟨ha, hthrough, has⟩ := has
    exact hw.counted_of_act ha (ih (hw.act ha hthrough) has hc)

/-- **Twin worlds stay twins in a run, and tell their clients the same.** -/
theorem Twins.run (hn : 0 < n) (h : Twins w v) (hw : w.Inv origin) (hv : v.Inv origin) (hwn : w.Kept n)
    (hvn : v.Kept n) (has : w.Lawful as) (hc : (w.run as).pool.storage.Counted) :
    v.Lawful as ∧ v.replies as = w.replies as ∧ Twins (w.run as) (v.run as) := by
  induction as generalizing w v with
  | nil => exact ⟨trivial, rfl, h⟩
  | cons a as ih =>
    have hcounted := hw.counted_of_run has hc
    obtain ⟨ha, hthrough, has⟩ := has
    have hsane : Sane origin n v := ⟨hv, hvn, by rw [h.pool.storage]; exact hcounted⟩
    obtain ⟨hnext, hreply⟩ := h.act hn ⟨hw, hwn, hcounted⟩ hsane a
    have ha' := h.enabled ha
    obtain ⟨hlawful, hreplies, hend⟩ := ih hnext (hw.act ha hthrough) (hv.act ha' hthrough) (hwn.act hn a)
      (hvn.act hn a) has hc
    exact ⟨⟨ha', hthrough, hlawful⟩, by rw [replies, replies, hreply, hreplies], hend⟩

/-- **The choices of eviction cannot be observed.** Two pools over the same stores that differ in them take the
same actions, tell every client the same at every step, and leave the same in the stores, as long as no file
grows past what can be counted. -/
theorem draws_unobservable {capacity : Nat} {draws draws' : Draws} {d : Tables} {P Q : Pool Tables}
    (hP : Pool.create capacity draws d = .ok P) (hQ : Pool.create capacity draws' d = .ok Q) (hd : d.Sound)
    (has : (start P).Lawful as) (hc : ((start P).run as).pool.storage.Counted) :
    (start Q).Lawful as ∧ (start Q).replies as = (start P).replies as ∧
      ((start Q).run as).pool.storage = ((start P).run as).pool.storage := by
  have hn := (bounded_create hP).1
  have htwins : Twins (start P) (start Q) := by
    obtain ⟨-, rfl⟩ := create_ok hP
    obtain ⟨-, rfl⟩ := create_ok hQ
    exact ⟨⟨rfl, rfl, rfl, fun p => rfl⟩, fun t => .none, rfl⟩
  obtain ⟨hlawful, hreplies, hend⟩ := htwins.run hn (inv_start hP hd) (inv_start hQ hd) (kept_start hP)
    (kept_start hQ) has hc
  exact ⟨hlawful, hreplies, hend.pool.storage⟩

/-! ### Runs one after another -/

theorem lawful_append : w.Lawful (as ++ bs) ↔ w.Lawful as ∧ (w.run as).Lawful bs := by
  induction as generalizing w with
  | nil => exact (and_iff_right trivial).symm
  | cons a as ih =>
    show _ ∧ _ ∧ (w.act a).Lawful (as ++ bs) ↔ (_ ∧ _ ∧ (w.act a).Lawful as) ∧ _
    rw [ih]
    simp only [and_assoc]
    rfl

theorem run_append (w : World) (as bs : List Action) : w.run (as ++ bs) = (w.run as).run bs :=
  List.foldl_append

theorem inv_run {origin : PageId → PageData} (hw : w.Inv origin) (has : w.Lawful as) : (w.run as).Inv origin := by
  induction as generalizing w with
  | nil => exact hw
  | cons a as ih => exact ih (hw.act has.1 has.2.1) has.2.2

theorem replies_append (as bs : List Action) : w.replies (as ++ bs) = w.replies as ++ (w.run as).replies bs := by
  induction as generalizing w with
  | nil => rfl
  | cons a as ih => exact congrArg (w.reply a :: ·) ih

/-! ### A transaction that reads pages -/

theorem lawful_advances (n : Nat) : w.Lawful (List.replicate n (.advance t)) := by
  induction n generalizing w with
  | zero => trivial
  | succ n ih => exact ⟨trivial, trivial, ih⟩

/-- The actions by which a transaction reads pages one after another. -/
def reading (t : TxnId) (ps : List PageId) : List Action :=
  ps.flatMap fun p => .request t (.get p .read) :: List.replicate 4 (.advance t)

theorem fetch_keeps (P : Pool Tables) (p : PageId) :
    (P.fetch p).1.storage = P.storage ∧ (P.fetch p).1.locks = P.locks := by
  rcases P.fetch_reads p with ⟨R, f, hR, -, -, hfetch⟩ | ⟨R, e, hR, hfetch⟩ | ⟨R, x, hR, -, -, hfetch⟩
  all_goals
    rw [hfetch]
    exact ⟨hR.storage, hR.locks⟩

/-- A transaction reads a page that nobody holds, or fails to for want of room. -/
theorem read_alone (hidle : w.tasks t = none) {p : PageId} (hfree : ∀ u, w.pool.locks.modeOf p u = none) :
    (w.run (reading t [p])).pool.storage = w.pool.storage ∧ (w.run (reading t [p])).tasks = w.tasks ∧
      (w.run (reading t [p])).pool.locks = (w.pool.locks.attempt p t .shared).1 := by
  obtain ⟨L, hgrant⟩ : ∃ L, w.pool.locks.attempt p t .shared = (L, .granted) :=
    ⟨_, LockTable.attempt_of_unheld hfree t .shared⟩
  obtain ⟨hstorage, hlocks⟩ := fetch_keeps (w.pool.withLocks L) p
  have hreading : reading t [p] = .request t (.get p .read) :: List.replicate 4 (.advance t) := by
    simp [reading]
  rw [hreading, hgrant]
  rcases hfetch : (w.pool.withLocks L).fetch p with ⟨R, e | f⟩
  · rw [hfetch] at hstorage hlocks
    have hrun : w.run (.request t (.get p .read) :: List.replicate 4 (.advance t)) =
        { pool := R, tasks := w.tasks, history := w.history } := by
      simp [run, act, setTask, advance, runSection, Call.ofRequest, Call.step, Call.start, Call.goOn,
        Call.attemptLock, Call.fail, Call.finish, Task.events, Task.after, Task.nextDraft, Call.result?,
        Access.mode, hgrant, hfetch, hidle]
    rw [hrun]
    exact ⟨hstorage, rfl, hlocks⟩
  · rw [hfetch] at hstorage hlocks
    rw [get_alone hidle hgrant hfetch]
    exact ⟨hstorage, rfl, hlocks⟩

/-- A transaction that reads free pages takes actions that can happen, and leaves the stores as they are. -/
theorem reading_lawful {ps : List PageId} (hps : ps.Nodup) (hidle : w.tasks t = none)
    (hfree : ∀ p ∈ ps, ∀ u, w.pool.locks.modeOf p u = none) :
    w.Lawful (reading t ps) ∧ (w.run (reading t ps)).pool.storage = w.pool.storage := by
  induction ps generalizing w with
  | nil => exact ⟨trivial, rfl⟩
  | cons p ps ih =>
    obtain ⟨hp, hps⟩ := List.nodup_cons.1 hps
    have hsplit : reading t (p :: ps) = reading t [p] ++ reading t ps := by simp [reading]
    obtain ⟨hstorage, htasks, hlocks⟩ := read_alone hidle (hfree p List.mem_cons_self)
    obtain ⟨hlawful, hrest⟩ := ih hps (by rw [htasks, hidle]) fun q hq u => by
      have hne : q ≠ p := fun h => hp (h ▸ hq)
      rw [hlocks, LockTable.modeOf_attempt, if_neg fun h => hne h.2.1]
      exact hfree q (List.mem_cons_of_mem p hq) u
    rw [hsplit, lawful_append, run_append, hrest, hstorage]
    exact ⟨⟨⟨hidle, trivial, lawful_advances 4⟩, hlawful⟩, rfl⟩

/-- One table of three pages of zeros. -/
def threePageTables : Tables :=
  Tables.register
    { disk := Disk.put {} "t" { file := .memory { bytes := Bytes.zeros (3 * pageSize) } } }
    (.heap smallFile)

/-- A pool over this table that has room for two of its pages. -/
def threePagePool (seed : UInt64) : Pool Tables :=
  { capacity := 2, storage := threePageTables, draws := Draws.ofSeed seed }

theorem create_threePagePool (seed : UInt64) :
    Pool.create 2 (Draws.ofSeed seed) threePageTables = .ok (threePagePool seed) := rfl

theorem threePageTables_sound : threePageTables.Sound := by
  refine Tables.Sound.register ⟨?_, ?_, ?_⟩ ⟨?_, ?_, ?_⟩
  all_goals simp [smallFile, Disk.Faultless, Disk.file_put]

theorem threePageTables_counted : threePageTables.Counted := by
  intro t
  simp only [Tables.pages, threePageTables, Tables.bytesOf_register]
  split
  · simp [smallFile, Disk.bytes, Disk.file_put, File.bytes, pageSize, maxPageNo, UInt32.size]
  · simp [Tables.bytesOf]

/-- The pages of the table, more of them than there is room for. -/
def threePages : List PageId := [⟨⟨1⟩, 0⟩, ⟨⟨1⟩, 1⟩, ⟨⟨1⟩, 2⟩]

theorem draws_unobservable_reads :
    threePageTables.Sound ∧ (start (threePagePool 7)).Lawful (reading ⟨1⟩ threePages) ∧
      ((start (threePagePool 7)).run (reading ⟨1⟩ threePages)).pool.storage.Counted ∧
      (start (threePagePool 8)).Lawful (reading ⟨1⟩ threePages) ∧
      (start (threePagePool 8)).replies (reading ⟨1⟩ threePages) =
        (start (threePagePool 7)).replies (reading ⟨1⟩ threePages) ∧
      ((start (threePagePool 8)).run (reading ⟨1⟩ threePages)).pool.storage =
        ((start (threePagePool 7)).run (reading ⟨1⟩ threePages)).pool.storage := by
  have hdistinct : threePages.Nodup := by decide
  obtain ⟨hlawful, hstorage⟩ := reading_lawful (w := start (threePagePool 7)) (t := ⟨1⟩) hdistinct rfl
    fun p _ => LockTable.modeOf_empty p
  have hcounted : ((start (threePagePool 7)).run (reading ⟨1⟩ threePages)).pool.storage.Counted := by
    rw [hstorage]
    exact threePageTables_counted
  exact ⟨threePageTables_sound, hlawful, hcounted,
    draws_unobservable (create_threePagePool 7) (create_threePagePool 8) threePageTables_sound hlawful hcounted⟩

end Runs

end World

end PageEngine
