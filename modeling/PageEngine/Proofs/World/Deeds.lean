import PageEngine.Proofs.World.Accounting
import PageEngine.Proofs.World.Runs

/-!
# `Proofs/World/Deeds.lean` — runs in which files fail and clients interfere

A run of a world here has more steps than those of its calls: a client writes pages out or discards them,
and the files below the stores become others, or begin or cease to fail. Beside the world goes the trail of
each frame (`Audited`).

The end of a transaction is the step that `Accounting.lean` leaves out. An abort brings back what the
transaction holds exclusively, so nothing of it is left in a frame. A commit settles the frames that it
holds. One that fails may leave some of them, and from then on these are abandoned, as the locks go:

> **whoever has a part in a cached frame holds its page exclusively or has abandoned it**, in every state
> of every such run (`Audited.Reachable.accountable`).
-/

set_option autoImplicit false

namespace PageEngine

open Std

/-! ## The ends of transactions -/

namespace Pool

/-- An abort of `t` brings back the before-image of the frame. -/
def restores (P : Pool Tables) (t : TxnId) (f : FrameId) : Bool :=
  decide (P.locks.modeOf (P.page f).id t = some .exclusive) &&
    decide (P.resident[(P.page f).id]? = some f)

/-- A commit of `t` would fail, and `t` holds the page of the cached frame. -/
def strands (P : Pool Tables) (t : TxnId) (f : FrameId) : Bool :=
  !(P.flushHeld t).2.isOk && P.locks.holds (P.page f).id t &&
    decide (P.resident[(P.page f).id]? = some f)

theorem page_restoreHeld {P : Pool Tables} (hP : P.Filed) (hl : P.locks.Consistent) (t : TxnId)
    (f : FrameId) :
    (P.restoreHeld t).page f = if P.restores t f = true then (P.page f).restore else P.page f := by
  obtain ⟨-, hre⟩ := restoreHeld_spec hP t
  by_cases hf : P.resident[(P.page f).id]? = some f
  · rw [hre.page_eq hP hf]
    by_cases hX : P.locks.modeOf (P.page f).id t = some .exclusive
    · have hheld : (P.page f).id ∈ P.locks.heldPages t := by
        rw [LockTable.mem_heldPages hl, hX]
        rfl
      simp [restores, aborted, hheld, hX, hf]
    · simp [restores, aborted, hX]
  · have hother : ∀ p ∈ P.locks.heldPages t, P.resident[p]? ≠ some f := by
      intro p _ hp
      exact hf ((hP p f hp).2 ▸ hp)
    rw [hre.other f hother, restores, decide_eq_false hf, Bool.and_false, if_neg Bool.false_ne_true]

end Pool

section Settling

variable {P : Pool Tables} {A : FrameId → Trail} {tasks : TxnId → Option Task} {t : TxnId} {k : Task}

theorem moved_abort (hi : Accountable P A tasks) (t : TxnId) :
    Moved (some t) (fun _ => False) P (P.restoreHeld t) := by
  obtain ⟨hstore, hre⟩ := Pool.restoreHeld_spec hi.filed t
  have hpage := Pool.page_restoreHeld hi.filed hi.locks t
  refine ⟨hre.locks, hstore ▸ hi.heaps, Nat.le_of_eq hre.size.symm, ?_, ?_, ?_⟩
  · intro p f hf
    rw [hre.resident] at hf
    obtain ⟨hlt, hid⟩ := hi.filed p f hf
    refine ⟨hre.size ▸ hlt, ?_⟩
    rw [hpage]
    split
    · exact hid
    · exact hid
  · intro f hf
    rw [hre.size] at hf
    rw [Pool.prior_of_lt hf, hpage]
    by_cases hrest : P.restores t f = true
    · have hX : P.locks.modeOf (P.page f).id t = some .exclusive := by
        simpa using (Bool.and_eq_true_iff.1 hrest).1
      rw [if_pos hrest]
      exact ⟨rfl, .inr ⟨t, rfl, hX⟩, .inl rfl⟩
    · rw [if_neg hrest]
      exact .refl _ _ _
  · intro p f hf
    exact .inl (hre.resident ▸ hf)

/-- **An abort leaves nothing of the transaction in any frame.** -/
theorem clear_of_abort (hi : Accountable P A tasks) (t : TxnId) (p : PageId) :
    Clear (P.restoreHeld t) (Trail.after A (some t) P (P.restoreHeld t) (P.restores t) no) t p := by
  intro f hf hclaim
  have hpage := Pool.page_restoreHeld hi.filed hi.locks t f
  rw [(Pool.restoreHeld_spec hi.filed t).2.resident] at hf
  obtain ⟨hlt, hid⟩ := hi.filed p f hf
  rw [Trail.after, if_pos hlt, Pool.prior_of_lt hlt, hpage] at hclaim ⊢
  by_cases hrest : P.restores t f = true
  · rw [if_pos hrest] at hclaim
    simp only [Trail.next, hrest, Bool.true_or, if_true] at hclaim
    exact absurd hclaim (not_claims_of_settled (Page.settled_iff.2 ⟨rfl, rfl⟩) t)
  · -- What is not brought back is not held exclusively.
    rw [if_neg hrest] at hclaim ⊢
    simp only [no, Bool.eq_false_iff.2 hrest, Trail.next_self] at hclaim ⊢
    refine (hi.accounted p f hf t hclaim).resolve_right fun hX => hrest ?_
    rw [hid] at hX
    simp only [Pool.restores, hid, hX, hf, decide_true, Bool.and_self]

theorem stepFits_abort (hi : Accountable P A (Function.update tasks t none)) (hk : TaskFits P A t k)
    (ha : k.call.activity = .start (.complete false)) : StepFits A tasks t k P (P.restores t) no := by
  have hpage := Pool.page_restoreHeld hi.filed hi.locks t
  have hm := moved_abort hi t
  have hbase : Accountable (P.restoreHeld t)
      (Trail.after A (some t) P (P.restoreHeld t) (P.restores t) no) (Function.update tasks t none) := by
    refine hi.settle (by simp) hm no (fun f hf => ?_) fun p f hf hrest _ => ?_
    · rw [hpage, if_pos hf]
      exact Page.settled_iff.2 ⟨rfl, rfl⟩
    · have hlt := (hm.filed p f hf).1
      rw [(Pool.restoreHeld_spec hi.filed t).2.size] at hlt
      rw [Pool.prior_of_lt hlt, hpage, if_neg (by simp [hrest])]
  have hstep : k.call.step P = (P.restoreHeld t, k.call.goOn (.releasing false (.ok ()))) := by
    simp only [Call.step, ha, Call.start, hk.txn]
    rfl
  exact stepFits_goOn hk hstep (by simp) rfl rfl hbase (clear_of_abort hi t)

/-- **A commit leaves nothing of the transaction in any frame but what it abandons.** -/
theorem clear_of_commit (hi : Accountable P A (Function.update tasks t none)) (p : PageId) :
    Clear (P.flushHeld t).1 (Trail.after A (some t) P (P.flushHeld t).1 no (P.strands t)) t p := by
  obtain ⟨htidy, hsaved⟩ := Pool.flushHeld_tidied hi.filed t
  have hm : Moved (some t) (fun _ => False) P (P.flushHeld t).1 :=
    .of_tidied hi.filed hi.heaps Page.saved_id Page.saved_data Page.saved_dirty htidy
  intro f hf hclaim
  rw [htidy.resident] at hf
  obtain ⟨hlt, hid⟩ := hi.filed p f hf
  have hdata := htidy.data Page.saved_data f
  rw [Trail.after, if_pos hlt, Pool.prior_of_lt hlt] at hclaim ⊢
  rcases Trail.next_cases (A f) (some t) (P.page f) ((P.flushHeld t).1.page f) (no f) (P.strands t f)
    with ⟨hnext, hsettled⟩ | ⟨-, hsame, hauthors, habandoned⟩
  · rw [hnext] at hclaim
    exact absurd hclaim (not_claims_of_settled (hsettled.resolve_left (by simp [no])) t)
  rw [habandoned]
  by_cases hsettled : ((P.flushHeld t).1.page f).settled = true
  · -- The frame was settled before, and `t` was not about to install it.
    refine .inl ?_
    have hauthor : t ∈ (A f).authors := by
      rcases hclaim with hauthor | hdirty
      · exact ((hauthors t).1 hauthor).resolve_right fun h => h.2 hdata
      · rw [(Page.settled_iff.1 hsettled).1] at hdirty
        cases hdirty
    refine (hi.quiet p f hf (hsame hdata hsettled) t hauthor).resolve_right ?_
    rintro ⟨k', hk', -⟩
    simp at hk'
  by_cases hheld : P.locks.holds p t = true
  · -- A frame of a held page that is not settled was left by a commit that has failed.
    refine .inr ⟨rfl, ?_, by simpa using hsettled⟩
    have hmem : p ∈ P.locks.heldPages t := (LockTable.mem_heldPages hi.locks).2 hheld
    cases hend : (P.flushHeld t).2 with
    | ok u =>
      rw [hsaved hend p hmem f hf] at hsettled
      exact absurd (Page.settled_iff.2 ⟨rfl, rfl⟩) hsettled
    | error e =>
      rw [← hid] at hheld hf
      simp only [Pool.strands, hend, hheld, hf, decide_true]
      rfl
  · have hno : P.locks.modeOf p t ≠ some .exclusive := by
      intro hX
      simp [LockTable.holds, hX] at hheld
    have ht := hm.touched f (by rw [htidy.size]; exact hlt)
    rw [Pool.prior_of_lt hlt] at ht
    obtain ⟨-, hclaim | ⟨-, hX⟩⟩ := ht.claims (fun h => by cases h) hclaim
    · exact .inl (hi.clear hno f hf hclaim)
    · exact absurd (hid ▸ hX) hno

theorem stepFits_commit (hi : Accountable P A (Function.update tasks t none)) (hk : TaskFits P A t k)
    (ha : k.call.activity = .start (.complete true)) : StepFits A tasks t k P no (P.strands t) := by
  have htidy := (Pool.flushHeld_tidied hi.filed t).1
  have hm : Moved (some t) (fun _ => False) P (P.flushHeld t).1 :=
    .of_tidied hi.filed hi.heaps Page.saved_id Page.saved_data Page.saved_dirty htidy
  have hbase : Accountable (P.flushHeld t).1
      (Trail.after A (some t) P (P.flushHeld t).1 no (P.strands t)) (Function.update tasks t none) := by
    refine hi.settle (by simp) hm _ (fun f hf => by cases hf) fun p f hf _ _ => ?_
    have hlt := (hm.filed p f hf).1
    rw [htidy.size] at hlt
    rw [Pool.prior_of_lt hlt, htidy.data Page.saved_data]
  have hstep : k.call.step P =
      ((P.flushHeld t).1, k.call.goOn (.releasing true (P.flushHeld t).2)) := by
    simp only [Call.step, ha, Call.start, hk.txn]
    rfl
  exact stepFits_goOn hk hstep (by simp) rfl rfl hbase (clear_of_commit hi)

/-- A client that overwrites a page marks it. -/
theorem Accountable.overwrite {p : PageId} {f : FrameId} {Q : Pool Tables}
    (hi : Accountable P A (Function.update tasks t none))
    (hX : P.locks.modeOf p t = some .exclusive) (hfetch : P.fetch p = (Q, .ok f)) (d : PageData) :
    Accountable (Q.setPage f (((Q.page f).withData d).markDirty t))
      (Trail.after A (some t) P (Q.setPage f (((Q.page f).withData d).markDirty t)) no no)
      (Function.update tasks t none) := by
  obtain ⟨R, hm, -, hdata, ⟨e, hR⟩ | ⟨g, hR, hg, -⟩⟩ := hi.fetch (t := t) (p := p) (by simp)
    (by rw [hX]; rfl)
  · rw [hfetch] at hR
    cases hR
  obtain ⟨rfl, rfl⟩ : Q = R ∧ f = g := by simpa [hfetch] using hR
  have hid := (hm.filed p f hg).2
  refine hi.advance (by simp) (hm.setPage (by simpa [hid] using hX) rfl (.inr rfl)) ?_
  intro q g hres hsettled
  have hlt := (hm.filed q g hres).1
  by_cases hgf : g = f
  · rw [hgf, Pool.page_setPage, if_pos ⟨rfl, hgf ▸ hlt⟩] at hsettled
    cases (Page.settled_iff.1 hsettled).1
  · have hpage : (Q.setPage f (((Q.page f).withData d).markDirty t)).page g = Q.page g := by
      rw [Pool.page_setPage_of_ne _ _ hgf]
    have hprior : P.prior (Q.setPage f (((Q.page f).withData d).markDirty t)) g = P.prior Q g := by
      rw [Pool.prior, Pool.prior, hpage]
    rw [hpage, hprior]
    exact hdata q g hres

end Settling

/-! ## Deeds -/

/-- What can happen where files fail and clients write pages out and discard them. -/
inductive Deed where
  | act (a : Action)
  | flushPage (p : PageId)
  | flushAll
  /-- The dirty pages that a transaction holds are written as by its commit. -/
  | flushHeld (t : TxnId)
  | discard (p : PageId)
  /-- The files below the stores become others, or others of them fail. -/
  | disturb (disk : Disk)

namespace Deed

/-- A transaction asks for something when it has no call in flight, and changes pages through the pool. -/
def Allowed (w : World) : Deed → Prop
  | act (.register _) => True
  | act a => a.Enabled w ∧ a.ThroughPool
  | _ => True

/-- The transaction whose call a deed serves. -/
def actor : Deed → Option TxnId
  | act (.advance t) => some t
  | _ => none

/-- An action that a world allows is an allowed deed. -/
theorem allowed_of_enabled {w : World} {x : Action} (hx : x.Enabled w) (hkind : x.ThroughPool) :
    (act x).Allowed w := by
  cases x with
  | register file => trivial
  | request t r => exact ⟨hx, hkind⟩
  | edit t p rule => exact ⟨hx, hkind⟩
  | advance t => exact ⟨hx, hkind⟩

end Deed

namespace World

def perform (w : World) : Deed → World
  | .act a => w.act a
  | .flushPage p => { w with pool := (w.pool.flushPage p).1 }
  | .flushAll => { w with pool := w.pool.flushAll.1 }
  | .flushHeld t => { w with pool := (w.pool.flushHeld t).1 }
  | .discard p => { w with pool := w.pool.discard p }
  | .disturb disk => { w with pool := { w.pool with storage := { w.pool.storage with disk } } }

/-- The transaction that a deed commits or aborts. -/
def settles (w : World) : Deed → Option (TxnId × Bool)
  | .act (.advance t) =>
    match w.tasks t with
    | none => none
    | some k =>
      match k.call.activity with
      | .start (.complete commit) => some (t, commit)
      | _ => none
  | _ => none

/-- The frames to which a deed brings back the before-image. -/
def restored (w : World) (d : Deed) : FrameId → Bool :=
  match w.settles d with
  | some (t, false) => w.pool.restores t
  | _ => no

/-- The frames that are held by a transaction whose commit is this deed and fails. -/
def stranded (w : World) (d : Deed) : FrameId → Bool :=
  match w.settles d with
  | some (t, true) => w.pool.strands t
  | _ => no

end World

/-- A world and the trails of the frames of its pool. -/
structure Audited where
  world : World
  trail : FrameId → Trail

namespace Audited

def start (P : Pool Tables) : Audited := ⟨.start P, fun _ => {}⟩

def next (a : Audited) (d : Deed) : Audited where
  world := a.world.perform d
  trail := Trail.after a.trail d.actor a.world.pool (a.world.perform d).pool (a.world.restored d)
    (a.world.stranded d)

def run (a : Audited) (ds : List Deed) : Audited := ds.foldl next a

/-- The states that the runs of a new pool come to. -/
inductive Reachable (P : Pool Tables) : Audited → Prop
  | start : Reachable P (start P)
  | step {a : Audited} {d : Deed} : Reachable P a → d.Allowed a.world → Reachable P (a.next d)

/-! ## What every deed keeps -/

section Deeds

variable {a : Audited} {d : Deed} {P Q : Pool Tables} {t : TxnId} {k : Task}

/-- What holds between two deeds. -/
def Sound (a : Audited) : Prop := Accountable a.world.pool a.trail a.world.tasks

/-- A deed that ends no transaction. -/
theorem next_eq (hd : a.world.settles d = none) :
    a.next d = ⟨a.world.perform d,
      Trail.after a.trail d.actor a.world.pool (a.world.perform d).pool no no⟩ := by
  rw [next, World.restored, World.stranded, hd]

/-- A deed of nobody that leaves the calls and the locks alone. -/
theorem Sound.move (ha : a.Sound) (hd : a.world.settles d = none) (hwho : d.actor = none)
    (hm : Moved none (fun _ => False) a.world.pool (a.world.perform d).pool)
    (htasks : (a.world.perform d).tasks = a.world.tasks) : (a.next d).Sound := by
  rw [next_eq hd, hwho]
  show Accountable (a.world.perform d).pool _ (a.world.perform d).tasks
  rw [htasks]
  exact Accountable.move ha hm (fun _ _ => rfl) (fun f hg => hg.elim) (fun f hg => by cases hg)
    (fun u k f hu => by cases hu) (fun u p f hu => by cases hu) (fun u k hu => by cases hu)

/-- A transaction without a call makes a request. -/
theorem Sound.begin (ha : a.Sound) (hd : a.world.settles d = none) (hidle : a.world.tasks t = none)
    (hw : a.world.perform d = a.world.setTask t (some k)) (hk : TaskFits a.world.pool a.trail t k) :
    (a.next d).Sound := by
  have hpool : (a.world.perform d).pool = a.world.pool := by rw [hw]; rfl
  rw [next_eq hd, Sound]
  dsimp only
  rw [after_no_of_frames ha (by rw [hpool]), hpool, hw]
  refine Accountable.employ (Accountable.retire ha ?_) hk
  intro k' f hk'
  rw [hidle] at hk'
  cases hk'

/-- A transaction about to run a section that installs nothing may leave. -/
theorem Sound.retire (ha : a.Sound) (hk : a.world.tasks t = some k)
    (hno : ∀ f fs, k.call.activity ≠ .installing (f :: fs)) :
    Accountable a.world.pool a.trail (Function.update a.world.tasks t none) := by
  refine Accountable.retire ha ?_
  rintro k' f hk' ⟨fs, hfs⟩
  obtain rfl := Option.some.inj (hk.symm.trans hk')
  exact hno f fs hfs

theorem settles_of_task (hk : a.world.tasks t = some k)
    (hno : ∀ commit, k.call.activity ≠ .start (.complete commit)) :
    a.world.settles (.act (.advance t)) = none := by
  simp only [World.settles, hk]

/-- A client that gets its page overwrites it and marks it. -/
theorem Sound.editPage (ha : a.Sound) (hk : a.world.tasks t = some k) {rule : Rule} {use : Use} {p : PageId}
    (hrule : k.rule = some rule) (hact : k.call.activity = .fetching p use)
    (hw : a.world.perform (.act (.advance t)) = a.world.editPage t p rule) :
    (a.next (.act (.advance t))).Sound := by
  have hquiet := ha.retire hk (by simp [hact])
  have hX : a.world.pool.locks.modeOf p t = some .exclusive := by
    have hfits := (ha.fits t k hk).activity
    rw [hact, hrule] at hfits
    exact hfits.2.2 (.inr rfl)
  rw [next_eq (settles_of_task hk (by simp [hact])), Sound]
  dsimp only
  rw [hw]
  rcases hfetch : a.world.pool.fetch p with ⟨Q, r⟩
  obtain ⟨R, -, hbase, -, hR⟩ := hquiet.fetch (t := t) (p := p) (by simp) (by rw [hX]; rfl)
  cases r with
  | error e =>
    have hQ : Q = R := by
      rcases hR with ⟨e', hR⟩ | ⟨f, hR, -⟩
      · rw [hfetch] at hR
        exact congrArg Prod.fst hR
      · rw [hfetch] at hR
        cases hR
    subst hQ
    simp only [World.editPage, hfetch]
    exact hbase
  | ok f =>
    simp only [World.editPage, hfetch]
    exact hquiet.overwrite hX hfetch _

/-- The section of an end comes with the flags of its frames, the others without. -/
theorem Sound.stepFits (ha : a.Sound) (hk : a.world.tasks t = some k)
    (hrule : ∀ p use, k.call.activity = .fetching p use → k.rule = none) :
    StepFits a.trail a.world.tasks t k a.world.pool (a.world.restored (.act (.advance t)))
      (a.world.stranded (.act (.advance t))) := by
  by_cases hend : ∃ commit, k.call.activity = .start (.complete commit)
  · obtain ⟨commit, hc⟩ := hend
    have hquiet := ha.retire hk (by simp [hc])
    have hs : a.world.settles (.act (.advance t)) = some (t, commit) := by
      simp only [World.settles, hk, hc]
    rw [World.restored, World.stranded, hs]
    cases commit with
    | false => exact stepFits_abort hquiet (ha.fits t k hk) hc
    | true => exact stepFits_commit hquiet (ha.fits t k hk) hc
  · have hno : ∀ commit, k.call.activity ≠ .start (.complete commit) := fun commit hc => hend ⟨commit, hc⟩
    rw [World.restored, World.stranded, settles_of_task hk hno]
    exact PageEngine.stepFits ha hk hno hrule

theorem Sound.advance (ha : a.Sound) (t : TxnId) : (a.next (.act (.advance t))).Sound := by
  rcases a.world.advance_cases t with ⟨hk, heq⟩ | ⟨k, rule, p, use, hk, hrule, hact, heq⟩ |
      ⟨k, hk, hrule, heq⟩
  · have hw : a.world.perform (.act (.advance t)) = a.world := heq
    rw [next_eq (by simp [World.settles, hk]), Sound]
    dsimp only
    rw [hw, after_no_of_frames ha rfl]
    exact ha
  · exact ha.editPage hk hrule hact heq
  · have hw : a.world.perform (.act (.advance t)) = a.world.runSection t k := heq
    rw [Sound, next]
    dsimp only
    rw [hw]
    exact ha.stepFits hk hrule

theorem Sound.act (ha : a.Sound) {x : Action} (hx : (Deed.act x).Allowed a.world) :
    (a.next (.act x)).Sound := by
  cases x with
  | request t r =>
    obtain ⟨hidle, hthrough⟩ := hx
    obtain ⟨hinst, htxn, hact⟩ := World.installs_ofRequest hthrough
    refine ha.begin rfl hidle rfl ⟨htxn, hinst, ?_⟩
    show ActivityFits a.world.pool a.trail t false (Call.ofRequest t r).activity
    rw [hact]
    exact ⟨hthrough, fun he => by cases he⟩
  | edit t p rule => exact ha.begin rfl hx.1 rfl ⟨rfl, rfl, trivial, fun _ => ⟨p, rfl⟩⟩
  | advance t => exact ha.advance t
  | register file =>
    exact ha.move rfl rfl (.of_frames ha.filed rfl (ha.heaps.register file) rfl fun _ _ h => h) rfl

/-- **Every deed keeps what holds of the trails.** -/
theorem Sound.next (ha : a.Sound) (hd : d.Allowed a.world) : (a.next d).Sound := by
  have hclean : ∀ ps, Moved none (fun _ => False) a.world.pool (a.world.pool.flushIn ps).1 := fun ps =>
    .of_tidied ha.filed ha.heaps Page.markClean_id Page.markClean_data Page.markClean_dirty
      (Pool.flushIn_tidied ps a.world.pool)
  cases d with
  | act x => exact ha.act hd
  | flushPage p => exact ha.move rfl rfl (hclean _) rfl
  | flushAll => exact ha.move rfl rfl (hclean _) rfl
  | flushHeld t =>
    exact ha.move rfl rfl (.of_tidied ha.filed ha.heaps Page.saved_id Page.saved_data Page.saved_dirty
      (Pool.flushHeld_tidied ha.filed t).1) rfl
  | discard p =>
    refine ha.move rfl rfl (.of_frames ha.filed rfl ha.heaps rfl fun q f hf => ?_) rfl
    have herase : (a.world.pool.resident.erase p)[q]? = some f := hf
    rw [ExtTreeMap.getElem?_erase] at herase
    split at herase
    · cases herase
    · exact herase
  | disturb disk =>
    exact ha.move rfl rfl (.of_frames ha.filed rfl (ha.heaps.congr rfl) rfl fun _ _ h => h) rfl

/-- **In every state of every run whoever has a part in a cached frame holds its page exclusively or has
abandoned it.** -/
theorem Reachable.accountable {capacity : Nat} {draws : Draws} {d : Tables}
    (hP : Pool.create capacity draws d = .ok P) (hd : d.HeapsOnly) (ha : Reachable P a) :
    Accountable a.world.pool a.trail a.world.tasks := by
  induction ha with
  | start =>
    obtain ⟨-, rfl⟩ := Pool.create_ok hP
    refine ⟨LockTable.consistent_empty, hd, ?_, fun _ _ => rfl, ?_, ?_, ?_⟩
    · intro p f hf
      simp [Audited.start, World.start] at hf
    · intro p f hf
      simp [Audited.start, World.start] at hf
    · intro p f hf
      simp [Audited.start, World.start] at hf
    · intro t k hk
      cases hk
  | step _ hall ih => exact Sound.next ih hall

/-! ## Runs without failures -/

theorem abandoned_next {r : Trail} (hr : r.abandoned = []) (who : Option TxnId) (x x' : Page)
    (restored : Bool) : (r.next who x x' restored false).abandoned = [] := by
  unfold Trail.next
  split
  · rfl
  · exact hr

/-- Where no commit can fail none leaves frames behind. -/
theorem stranded_of_ok {w : World} (hok : ∀ t, (w.pool.flushHeld t).2 = .ok ()) (x : Deed) :
    w.stranded x = no := by
  unfold World.stranded
  split
  · funext f
    simp only [Pool.strands, hok, no]
    rfl
  · rfl

/-- **Where files do not fail nothing is abandoned**: every run of calls alone is an audited run in which
no commit leaves anything behind. -/
theorem reachable_of_sound {capacity : Nat} {draws : Draws} {d : Tables}
    (hP : Pool.create capacity draws d = .ok P) (hd : d.Sound) {w : World}
    (hw : World.Reachable Action.ThroughPool P w) :
    ∃ A, Reachable P ⟨w, A⟩ ∧ ∀ f, (A f).abandoned = [] := by
  induction hw with
  | start => exact ⟨fun _ => {}, .start, fun _ => rfl⟩
  | @step w x hw hen hx ih =>
    obtain ⟨A, hA, hnone⟩ := ih
    obtain ⟨hinv, -⟩ := World.Reachable.inv (fun _ h => h) hP hd hw
    have hok : ∀ t, (w.pool.flushHeld t).2 = .ok () :=
      Pool.flushHeld_ok hinv.pool.sound hinv.pool.filed fun q g hg => (hinv.pool.cached q g hg).image.hasPage
    refine ⟨_, hA.step (Deed.allowed_of_enabled hen hx), fun f => ?_⟩
    rw [stranded_of_ok hok]
    refine abandoned_next ?_ _ _ _ _
    split
    · exact hnone f
    · rfl

end Deeds

end Audited

end PageEngine
