import PageEngine.Proofs.Pool.Fetching
import PageEngine.Proofs.World.Runs

/-!
# `Proofs/World/Alone.lean` — calls that nobody comes in between

What a request leads to when its sections run one after another and it does not have to wait: a client
gets a page or overwrites one, or a transaction ends. From these calls a run is put together whose
history is known to the last byte:

> **the handover**: one transaction overwrites a page and commits, and the next one finds in it what the
> first one wrote,

and can overwrite that in its turn.
-/

set_option autoImplicit false

namespace PageEngine

open Std

namespace World

variable {w : World} {t : TxnId} {p : PageId} {kind : Action → Prop} {P : Pool Tables}

def run (w : World) (as : List Action) : World := as.foldl act w

/-- Nobody has a call in flight. -/
def Idle (w : World) : Prop := ∀ t, w.tasks t = none

/-! ## One call -/

theorem Reachable.serve (hw : Reachable kind P w) {a : Action} (ha : a.Enabled w) (hkind : kind a)
    (t : TxnId) (hnext : kind (.advance t)) (n : Nat) :
    Reachable kind P (w.run (a :: List.replicate n (.advance t))) := by
  have hfirst := hw.step ha hkind
  show Reachable kind P ((w.act a).run (List.replicate n (.advance t)))
  generalize w.act a = v at hfirst
  induction n generalizing v with
  | zero => exact hfirst
  | succ n ih => exact ih _ (hfirst.step trivial hnext)

theorem edit_alone (hidle : w.tasks t = none) {L : LockTable} {f : FrameId}
    (hgrant : w.pool.locks.attempt p t .exclusive = (L, .granted))
    (hfetch : (w.pool.withLocks L).fetch p = (P, .ok f)) (rule : Rule) :
    w.run (.edit t p rule :: List.replicate 3 (.advance t)) =
      { pool := P.setPage f (((P.page f).withData
          (rule (History.reads t w.history ++ [(P.page f).data]))).markDirty t)
        tasks := w.tasks
        history := .edited t p rule (rule (History.reads t w.history ++ [(P.page f).data])) ::
          .got t p (P.page f).data :: w.history } := by
  simp [run, act, setTask, advance, runSection, editPage, Call.ofRequest, Call.step, Call.start,
    Call.goOn, Call.attemptLock, Task.events, Task.after, Task.nextDraft, Call.result?, Access.mode,
    hgrant, hfetch, hidle]

theorem get_alone (hidle : w.tasks t = none) {a : Access} {L : LockTable} {f : FrameId}
    (hgrant : w.pool.locks.attempt p t a.mode = (L, .granted))
    (hfetch : (w.pool.withLocks L).fetch p = (P, .ok f)) :
    w.run (.request t (.get p a) :: List.replicate 4 (.advance t)) =
      { pool := P, tasks := w.tasks, history := .got t p (P.page f).data :: w.history } := by
  simp [run, act, setTask, advance, runSection, Call.ofRequest, Call.step, Call.start, Call.goOn,
    Call.attemptLock, Call.useFrame, Call.finish, Task.events, Task.after, Task.nextDraft,
    Call.result?, hgrant, hfetch, hidle]

theorem complete_alone (hidle : w.tasks t = none) (commit : Bool) :
    w.run (.request t (.complete commit) :: List.replicate 3 (.advance t)) =
      { pool := (((w.pool.settlePages t commit).1).releaseAll t).1.countEnd commit
        tasks := w.tasks
        history := .ended t commit :: w.history } := by
  simp [run, act, setTask, advance, runSection, Call.ofRequest, Call.step, Call.start, Call.goOn,
    Call.finish, Task.events, Task.after, Task.nextDraft, Call.result?, hidle]

/-! ## The handover -/

section Handover

variable {capacity : Nat} {draws : Draws} {d : Tables}

/-- A transaction overwrites a free page that it is handed. -/
theorem edit_served (hP : Pool.create capacity draws d = .ok P) (hd : d.Sound)
    (hw : Reachable Action.PageWise P w) (hidle : w.Idle)
    (hfree : ∀ u, w.pool.locks.modeOf p u = none) {Q : Pool Tables} {f : FrameId}
    (hfetch : (w.pool.withLocks (w.pool.locks.attempt p t .exclusive).1).fetch p = (Q, .ok f)) (rule : Rule) :
    ∃ w', Reachable Action.PageWise P w' ∧ w'.Idle ∧ (w'.pool.resident[p]?).isSome ∧
      (∀ u, u ≠ t → w'.pool.locks.modeOf p u = none) ∧
      ∃ x, x = History.view d.contents t p w.history ∧ w'.history =
        .edited t p rule (rule (History.reads t w.history ++ [x])) :: .got t p x :: w.history := by
  have hw' := hw.serve (a := .edit t p rule) (hidle t) trivial t trivial 3
  rw [edit_alone (hidle t) (LockTable.attempt_of_unheld hfree t .exclusive) hfetch] at hw'
  have hlocks := Pool.locks_fetch (w.pool.withLocks (w.pool.locks.attempt p t .exclusive).1) p
  rw [hfetch] at hlocks
  refine ⟨_, hw', hidle, ?_, ?_, _, ?_, rfl⟩
  · show (Q.resident[p]?).isSome
    rw [Pool.resident_of_fetch hfetch]
    rfl
  · intro u hu
    show Q.locks.modeOf p u = none
    rw [hlocks]
    show (w.pool.locks.attempt p t .exclusive).1.modeOf p u = none
    rw [LockTable.modeOf_attempt, if_neg fun h => hu h.2.2, hfree]
  · exact (Reachable.inv (fun _ => Action.PageWise.throughPool) hP hd hw').2.1

/-- A transaction commits, and the page that only it held is free. -/
theorem commit_alone (hP : Pool.create capacity draws d = .ok P) (hd : d.Sound)
    (hw : Reachable Action.PageWise P w) (hidle : w.Idle) (hres : (w.pool.resident[p]?).isSome)
    (halone : ∀ u, u ≠ t → w.pool.locks.modeOf p u = none) :
    ∃ w', Reachable Action.PageWise P w' ∧ w'.Idle ∧ (w'.pool.resident[p]?).isSome ∧
      (∀ u, w'.pool.locks.modeOf p u = none) ∧ w'.history = .ended t true :: w.history := by
  obtain ⟨hinv, -⟩ := Reachable.inv (fun _ => Action.PageWise.throughPool) hP hd hw
  obtain ⟨hre, -⟩ := Pool.flushHeld_spec hinv.pool.sound hinv.pool.filed
    (fun q g hg => (hinv.pool.cached q g hg).image.hasPage) t
  have hw' := hw.serve (a := .request t (.complete true)) (hidle t) trivial t trivial 3
  rw [complete_alone (hidle t)] at hw'
  refine ⟨_, hw', hidle, ?_, ?_, rfl⟩
  · show ((w.pool.flushHeld t).1.resident[p]?).isSome
    rw [hre.resident]
    exact hres
  · intro u
    show ((w.pool.flushHeld t).1.locks.releaseAll t).1.modeOf p u = none
    rw [hre.locks, (LockTable.releaseAll_spec hinv.pool.locks t).2]
    split
    · rfl
    · rename_i hu
      exact halone u hu

/-- A transaction gets a free page that is cached, and finds what it should see. -/
theorem get_cached (hP : Pool.create capacity draws d = .ok P) (hd : d.Sound)
    (hw : Reachable Action.PageWise P w) (hidle : w.Idle) (hres : (w.pool.resident[p]?).isSome)
    (hfree : ∀ u, w.pool.locks.modeOf p u = none) (u : TxnId) (a : Access) :
    ∃ w', Reachable Action.PageWise P w' ∧ w'.Idle ∧
      w'.history = .got u p (History.view d.contents u p w.history) :: w.history := by
  obtain ⟨f, hf⟩ := Option.isSome_iff_exists.1 hres
  have hfetch : (w.pool.withLocks (w.pool.locks.attempt p u a.mode).1).fetch p =
      (Pool.tally (w.pool.withLocks (w.pool.locks.attempt p u a.mode).1)
        fun c => { c with hits := c.hits + 1 }, .ok f) := Pool.fetch_of_resident hf
  have hw' := hw.serve (a := .request u (.get p a)) (hidle u) trivial u trivial 4
  rw [get_alone (hidle u) (LockTable.attempt_of_unheld hfree u a.mode) hfetch] at hw'
  refine ⟨_, hw', hidle, ?_⟩
  obtain ⟨hgot, -⟩ := (Reachable.inv (fun _ => Action.PageWise.throughPool) hP hd hw').2
  simp only [hgot]

/-- In a new pool a transaction overwrites a page and commits. -/
theorem edit_first (hP : Pool.create capacity draws d = .ok P) (hd : d.Sound)
    (hp : p.pageNo < d.pages p.table) (hmax : d.pages p.table ≤ maxPageNo) (t : TxnId) (rule : Rule) :
    ∃ w, Reachable Action.PageWise P w ∧ w.Idle ∧ (w.pool.resident[p]?).isSome ∧
      (∀ u, w.pool.locks.modeOf p u = none) ∧ w.history =
        [.ended t true, .edited t p rule (rule [d.contents p]), .got t p (d.contents p)] := by
  obtain ⟨hroom, hnew⟩ := Pool.create_ok hP
  have hfetch := Pool.fetch_of_room (P := P.withLocks (P.locks.attempt p t .exclusive).1) (p := p)
    (by rw [hnew]; exact hd) (by simp [hnew, Pool.withLocks]) (by simpa [hnew, Pool.withLocks] using hroom)
    (by rw [hnew]; exact hp) (by rw [hnew]; exact hmax)
  obtain ⟨w₁, hw₁, hidle₁, hres₁, halone, x, hx, hist₁⟩ := edit_served hP hd .start (fun _ => rfl)
    (fun u => by rw [hnew]; exact LockTable.modeOf_empty p u) hfetch rule
  obtain ⟨w₂, hw₂, hidle₂, hres₂, hfree, hist₂⟩ := commit_alone hP hd hw₁ hidle₁ hres₁ halone
  have hfirst : x = d.contents p := hx
  refine ⟨w₂, hw₂, hidle₂, hres₂, hfree, ?_⟩
  rw [hist₂, hist₁, hfirst]
  rfl

/-- What another transaction sees when the first one has committed. -/
theorem view_first (origin : PageId → PageData) (t u : TxnId) (p : PageId) (rule : Rule) (x y : PageData) :
    History.view origin u p [.ended t true, .edited t p rule x, .got t p y] = x := by
  by_cases hu : t = u <;> simp [History.view, History.own, History.committed, hu]

/-- **The handover.** In a new pool `t` overwrites a page and commits, and `u` finds in the page what `t`
wrote. -/
theorem handover (hP : Pool.create capacity draws d = .ok P) (hd : d.Sound)
    (hp : p.pageNo < d.pages p.table) (hmax : d.pages p.table ≤ maxPageNo) (t u : TxnId)
    (rule : Rule) :
    ∃ w, Reachable Action.PageWise P w ∧ w.Idle ∧ w.history =
      [.got u p (rule [d.contents p]), .ended t true, .edited t p rule (rule [d.contents p]),
        .got t p (d.contents p)] := by
  obtain ⟨w₁, hw₁, hidle₁, hres₁, hfree, hist₁⟩ := edit_first hP hd hp hmax t rule
  obtain ⟨w₂, hw₂, hidle₂, hist₂⟩ := get_cached hP hd hw₁ hidle₁ hres₁ hfree u .read
  refine ⟨w₂, hw₂, hidle₂, ?_⟩
  rw [hist₂, hist₁, view_first]

/-- In a new pool `t` overwrites a page and commits, and then `u` overwrites what `t` wrote, and commits. -/
theorem relay (hP : Pool.create capacity draws d = .ok P) (hd : d.Sound)
    (hp : p.pageNo < d.pages p.table) (hmax : d.pages p.table ≤ maxPageNo) {t u : TxnId} (hne : t ≠ u)
    (rule : Rule) :
    ∃ w, Reachable Action.PageWise P w ∧ w.Idle ∧ w.history =
      [.ended u true, .edited u p rule (rule [rule [d.contents p]]), .got u p (rule [d.contents p]),
        .ended t true, .edited t p rule (rule [d.contents p]), .got t p (d.contents p)] := by
  obtain ⟨w₁, hw₁, hidle₁, hres₁, hfree₁, hist₁⟩ := edit_first hP hd hp hmax t rule
  obtain ⟨f, hf⟩ := Option.isSome_iff_exists.1 hres₁
  obtain ⟨w₂, hw₂, hidle₂, hres₂, halone, x, hx, hist₂⟩ := edit_served (t := u) hP hd hw₁ hidle₁ hfree₁
    (Pool.fetch_of_resident (P := w₁.pool.withLocks (w₁.pool.locks.attempt p u .exclusive).1) hf) rule
  obtain ⟨w₃, hw₃, hidle₃, -, -, hist₃⟩ := commit_alone hP hd hw₂ hidle₂ hres₂ halone
  rw [hist₁, view_first] at hx
  refine ⟨w₃, hw₃, hidle₃, ?_⟩
  rw [hist₃, hist₂, hist₁, hx]
  simp [History.reads, hne]

end Handover

/-! ## A small pool -/

theorem slotsOfWidth_eight :
    0 < slotsOfWidth 8 ∧ slotsOfWidth 8 ≤ maxSlots := by decide

def smallFile : HeapFile :=
  ⟨⟨1⟩, { name := "t" }, ⟨8, Nat.succ_pos 7, by decide, slotsOfWidth_eight.1, slotsOfWidth_eight.2⟩⟩

/-- One table of one page of zeros. -/
def smallTables : Tables :=
  Tables.register { disk := Disk.put {} "t" { file := .memory { bytes := Bytes.zeros pageSize } } }
    (.heap smallFile)

/-- A pool over this table that has room for its page. -/
def smallPool : Pool Tables := { capacity := 1, storage := smallTables, draws := Draws.ofSeed 7 }

theorem create_smallPool : Pool.create 1 (Draws.ofSeed 7) smallTables = .ok smallPool := rfl

theorem smallTables_sound : smallTables.Sound := by
  refine Tables.Sound.register ⟨?_, ?_, ?_⟩ ⟨?_, ?_, ?_⟩
  all_goals simp [smallFile, Disk.Faultless, Disk.file_put]

theorem smallTables_pages : smallTables.pages ⟨1⟩ = 1 := by
  simp [Tables.pages, smallTables, Tables.bytesOf_register, smallFile, Disk.bytes, Disk.file_put,
    File.bytes, pageSize]

/-- Counts the first byte of a page up. -/
def countUp : Rule := fun ds =>
  let d := ds.getLastD PageData.zeros
  d.setByte 0 (d.byte 0 + 1)

/-- What the page of the small table holds after it was counted up. -/
def counted : PageData := countUp [smallTables.contents ⟨⟨1⟩, 0⟩]

/-- Transaction 1 counts the page up and commits, and transaction 2 reads it. -/
def smallHistory : History :=
  [.got ⟨2⟩ ⟨⟨1⟩, 0⟩ counted, .ended ⟨1⟩ true, .edited ⟨1⟩ ⟨⟨1⟩, 0⟩ countUp counted,
    .got ⟨1⟩ ⟨⟨1⟩, 0⟩ (smallTables.contents ⟨⟨1⟩, 0⟩)]

theorem handover_small :
    ∃ w, Reachable Action.PageWise smallPool w ∧ w.Idle ∧ w.history = smallHistory :=
  handover create_smallPool smallTables_sound (by rw [smallTables_pages]; decide)
    (by rw [smallTables_pages]; decide) ⟨1⟩ ⟨2⟩ countUp

/-- Transaction 2 counts the page up and commits, and then transaction 1 does. -/
def relayHistory : History :=
  [.ended ⟨1⟩ true, .edited ⟨1⟩ ⟨⟨1⟩, 0⟩ countUp (countUp [counted]), .got ⟨1⟩ ⟨⟨1⟩, 0⟩ counted,
    .ended ⟨2⟩ true, .edited ⟨2⟩ ⟨⟨1⟩, 0⟩ countUp counted, .got ⟨2⟩ ⟨⟨1⟩, 0⟩ (smallTables.contents ⟨⟨1⟩, 0⟩)]

theorem relay_small :
    ∃ w, Reachable Action.PageWise smallPool w ∧ w.Idle ∧ w.history = relayHistory :=
  relay create_smallPool smallTables_sound (by rw [smallTables_pages]; decide)
    (by rw [smallTables_pages]; decide) (by decide) countUp

end World

end PageEngine
