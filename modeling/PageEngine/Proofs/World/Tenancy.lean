import PageEngine.Proofs.Locking.Wakeups
import PageEngine.Proofs.Pool.Browsing
import PageEngine.Proofs.World.Capacity

/-!
# `Proofs/World/Tenancy.lean` — runs in which a heap file has its table to itself

Clients ask for what they like, and files fail when they like. Around the calls pages are flushed and discarded,
locks are given back and images are written to (`World.Hosts`). If no other store is registered for the table of a
heap file, the calls leave it its table and its pages, and install no page of it that it has not got: an image that
a call installs was fetched, or it was read by the store of another table (`Call.Minds`). So

> **the pages of the heap file that are cached are pages that it has**, at any moment of such a run
> (`World.Hosts.tenanted`),

and its pool serves it (`World.Hosts.serves`).
-/

set_option autoImplicit false

namespace PageEngine

open Std

/-- Every store is registered for its own table. -/
def Tables.Keyed (d : Tables) : Prop := ∀ (t : TableId) (s : Store), d.catalog[t]? = some s → s.table = t

theorem Tables.Keyed.of_catalog {d d' : Tables} (hd : d.Keyed) (h : d'.catalog = d.catalog) : d'.Keyed := by
  unfold Tables.Keyed
  rwa [h]

theorem Tables.Sound.keyed {d : Tables} (hd : d.Sound) : d.Keyed := by
  intro t s hs
  obtain ⟨h, rfl, ht⟩ := hd.heap t s hs
  exact ht

/-- What an operation of a call is like: it respects `h`, stores stay registered for their own tables, and the lock
table is left to requests and releases. -/
def CacheOp.Plain (h : HeapFile) (P : Pool Tables) : CacheOp Tables → Prop
  | install t f => (install t f).Respects h P
  | restock s => (restock s).Respects h P ∧ s.Keyed
  | relock L => P.locks.Reachable → L.Reachable
  | _ => True

theorem CacheOp.Plain.respects {h : HeapFile} {P : Pool Tables} {o : CacheOp Tables} (ho : o.Plain h P) :
    o.Respects h P := by
  cases o with
  | install t f => exact ho
  | restock s => exact ho.1
  | _ => trivial

namespace Pool

/-- The pools to which operations of calls lead. -/
def GoesOn (h : HeapFile) (P Q : Pool Tables) : Prop := P.ReachesBy (CacheOp.Plain h) Q

section GoesOn

variable {h : HeapFile} {P Q R : Pool Tables} {o : CacheOp Tables}

theorem GoesOn.refl (h : HeapFile) (P : Pool Tables) : GoesOn h P P := ReachesBy.refl

theorem GoesOn.trans (hQ : GoesOn h P Q) (hR : GoesOn h Q R) : GoesOn h P R := ReachesBy.trans hQ hR

theorem goesOn_run (ho : o.Allowed P) (hp : o.Plain h P) : GoesOn h P (o.run P) := ReachesBy.refl.step ho hp

theorem goesOn_fetch {p : PageId} {r : Except Error FrameId} (hQ : P.fetch p = (Q, r)) : GoesOn h P Q := by
  have hop : GoesOn h P (P.fetch p).1 := goesOn_run (o := .fetch p) trivial trivial
  rwa [hQ] at hop

theorem goesOn_relock {L : LockTable} (hL : P.locks.Reachable → L.Reachable) : GoesOn h P (P.withLocks L) :=
  goesOn_run (o := .relock L) trivial hL

theorem GoesOn.respects (hQ : GoesOn h P Q) : P.ReachesBy (CacheOp.Respects h) Q :=
  ReachesBy.mono (fun _ _ hp => hp.respects) hQ

theorem GoesOn.pagesOn_le (hQ : GoesOn h P Q) : h.pagesOn P.storage.disk ≤ h.pagesOn Q.storage.disk := by
  induction hQ with
  | refl => exact Nat.le_refl _
  | step _ _ hp ih => exact Nat.le_trans ih (pagesOn_run hp.respects)

theorem GoesOn.keyed (hQ : GoesOn h P Q) (hkey : P.storage.Keyed) : Q.storage.Keyed := by
  induction hQ with
  | refl => exact hkey
  | @step R o _ _ hp ih =>
    refine storage_run (motive := Tables.Keyed) (P := R) (o := o) (fun _ _ hs => hs)
      (fun s x hs => hs.of_catalog (Tables.catalog_writePage s x))
      (fun s t hs => hs.of_catalog (Tables.catalog_syncTable s t)) (fun s hos => ?_) ih
    subst hos
    exact hp.2

/-- No operation on the cache touches the locks. -/
theorem locks_run (hP : P.Filed) (ho : ∀ L, o ≠ .relock L) : (o.run P).locks = P.locks := by
  cases o with
  | fetch p => exact P.locks_fetch p
  | install t f =>
    show (P.install t f).1.locks = P.locks
    rcases P.install_cases t f with ⟨-, hi⟩ | ⟨g, -, -, hi⟩ | ⟨-, R, hR, ⟨e, hi⟩ | hi⟩
    all_goals rw [hi]
    · rfl
    · rfl
    · exact hR.locks
    · exact hR.locks
  | flush ps => exact (flushIn_tidied ps P).locks
  | settle t commit =>
    cases commit with
    | true => exact (flushHeld_tidied hP t).1.locks
    | false =>
      show (P.restoreHeld t).locks = P.locks
      rw [restoreHeld, restorePages_eq]
  | relock L => exact absurd rfl (ho L)
  | _ => rfl

theorem GoesOn.locks {n : Nat} (hn : 0 < n) (hP : Bounded n P) (hQ : GoesOn h P Q) (hL : P.locks.Reachable) :
    Q.locks.Reachable := by
  induction hQ with
  | refl => exact hL
  | @step R o hR _ hp ih =>
    by_cases hlock : ∃ L, o = .relock L
    · obtain ⟨L, rfl⟩ := hlock
      exact hp ih
    · have hfiled := (hR.reaches.bounded readsOwn_tables hn hP).filed
      rw [locks_run hfiled fun L hL => hlock ⟨L, hL⟩]
      exact ih

/-- An image that is of a page of `h` goes on to be one. -/
theorem GoesOn.has {n : Nat} (hn : 0 < n) (hP : Bounded n P) (hQ : GoesOn h P Q) {f : FrameId}
    (hf : f.index < P.frames.size) (hhas : h.Has P f) : h.Has Q f := by
  have hid := hQ.reaches.ids readsOwn_tables hn hP hf
  intro ht
  rw [hid] at ht ⊢
  exact Nat.lt_of_lt_of_le (hhas ht) hQ.pagesOn_le

/-- A cached image is of a page that `h` has, if it is of its table. -/
theorem Backed.has (hb : Backed h P) (hP : P.Filed) {p : PageId} {f : FrameId} (hf : P.resident[p]? = some f) :
    h.Has P f := by
  intro ht
  rw [(hP p f hf).2] at ht ⊢
  exact hb.within p f hf ht

end GoesOn

end Pool

/-! ## Sections -/

/-- The changed images of a request are installed. -/
def Request.installs : Request → Bool
  | insertInto _ _ => false
  | deleteFrom _ _ => false
  | _ => true

namespace Call

/-- The images that a call changes or installs are of pages that `h` has, if they are of its table. -/
def Minds (h : HeapFile) (c : Call) (P : Pool Tables) : Prop :=
  match c.activity with
  | .start r => c.installs = r.installs
  | .working _ f _ => h.Has P f
  | .installing fs => ∀ f ∈ fs, h.Has P f
  | _ => True

/-- A section turns the pool into one that operations of calls lead to, and its call minds `h` there. -/
def GoesOn (h : HeapFile) (P : Pool Tables) (r : Pool Tables × Call) : Prop := P.GoesOn h r.1 ∧ r.2.Minds h r.1

variable {h : HeapFile} {c : Call} {P Q : Pool Tables} {n : Nat}

theorem Minds.goesOn (hn : 0 < n) (hP : Pool.Bounded n P) (hc : c.Minds h P) (hholds : c.Holds P)
    (hQ : P.GoesOn h Q) : c.Minds h Q := by
  unfold Minds Holds at *
  split
  · rename_i ha
    rwa [ha] at hc
  · rename_i f _ ha
    rw [ha] at hc hholds
    exact hQ.has hn hP (hholds f List.mem_cons_self) hc
  · rename_i fs ha
    rw [ha] at hc hholds
    exact fun f hf => hQ.has hn hP (hholds f hf) (hc f hf)
  · trivial

theorem minds_changed {fs : List FrameId} (hfs : c.installs = true → ∀ f ∈ fs, h.Has P f) :
    (c.changed fs).Minds h P := by
  unfold changed
  split
  · rename_i hc
    exact hfs hc
  · trivial

theorem minds_tryNext (c : Call) (Q : Pool Tables) (i : Insertion) : (c.tryNext Q i).Minds h P := by
  unfold tryNext
  split <;> trivial

theorem minds_collectNext (c : Call) (x : HeapFile) (pages next : Nat) (rows : List Tuple) :
    (c.collectNext x pages next rows).Minds h P := by
  unfold collectNext
  split <;> trivial

/-- A detached store makes images of its own table. -/
theorem touchFresh_goesOn (x : HeapFile) : ∀ (ns : List Nat) (P : Pool Tables) (fs : List FrameId),
    (∀ f ∈ fs, f.index < P.frames.size ∧ (P.page f).id.table = x.table) →
      P.GoesOn h (touchFresh P x ns fs).1 ∧ ∀ gs, (touchFresh P x ns fs).2 = .ok gs →
        ∀ f ∈ gs, ((touchFresh P x ns fs).1.page f).id.table = x.table := by
  intro ns
  induction ns with
  | nil =>
    intro P fs hfs
    exact ⟨.refl h P, fun gs hgs f hf => (hfs f (Except.ok.inj hgs ▸ hf)).2⟩
  | cons m ns ih =>
    intro P fs hfs
    unfold touchFresh
    split
    · exact ⟨.refl h P, nofun⟩
    · rename_i page hpage
      dsimp only
      generalize hy : page.withData (page.data.setByte (pageSize - 1) (page.data.byte (pageSize - 1) + 1)) = y
      have hid : y.id = ⟨x.table, m⟩ := by rw [← hy, Page.withData_id, HeapFile.id_of_readPage hpage]
      have hfs' : ∀ f ∈ fs ++ [P.nextFrame],
          f.index < (P.addFrame y).frames.size ∧ ((P.addFrame y).page f).id.table = x.table := by
        intro f hf
        rcases List.mem_append.1 hf with hold | hnew
        · obtain ⟨hlt, ht⟩ := hfs f hold
          exact ⟨Nat.lt_of_lt_of_le hlt (P.sameCache_addFrame y).frames, by
            rw [Pool.page_addFrame_of_lt hlt]
            exact ht⟩
        · rw [List.mem_singleton.1 hnew]
          exact ⟨by simp [Pool.addFrame, Pool.nextFrame], by rw [Pool.page_nextFrame, hid]⟩
      obtain ⟨hgoes, hgs⟩ := ih (P.addFrame y) (fs ++ [P.nextFrame]) hfs'
      have hmake : P.GoesOn h (P.addFrame y) :=
        Pool.goesOn_run (o := .make y) trivial trivial
      exact ⟨hmake.trans hgoes, hgs⟩

theorem touch_goesOn (c : Call) (P : Pool Tables) {x : HeapFile} (hx : c.installs = true → x.table ≠ h.table)
    (ns : List Nat) : GoesOn h P (c.touch P x ns) := by
  obtain ⟨hgoes, hgs⟩ := touchFresh_goesOn (h := h) x ns P [] (fun f hf => absurd hf List.not_mem_nil)
  unfold touch
  split
  · rename_i hQ
    rw [hQ] at hgoes
    exact ⟨hgoes, trivial⟩
  · rename_i hQ
    rw [hQ] at hgoes hgs
    exact ⟨hgoes, minds_changed fun hc f hf ht => absurd ((hgs _ rfl f hf).symm.trans ht) (hx hc)⟩

/-- A store that is not `h` and changes images by itself is one of another table, or its images are not installed. -/
def Apart (h : HeapFile) (c : Call) (s : Store) : Prop :=
  ∀ x, s = .detached x → c.installs = true → x.table ≠ h.table

theorem startInsert_goesOn (c : Call) (P : Pool Tables) {s : Store} (hs : c.Apart h s) :
    GoesOn h P (c.startInsert P s) := by
  unfold startInsert
  split
  · split
    · exact ⟨.refl h P, trivial⟩
    · exact ⟨.refl h P, trivial⟩
  · exact c.touch_goesOn P (hs _ rfl) _

theorem startDelete_goesOn (c : Call) (P : Pool Tables) (r : RecordId) {s : Store} (hs : c.Apart h s) :
    GoesOn h P (c.startDelete P r s) := by
  unfold startDelete
  split
  · repeat' split
    all_goals exact ⟨.refl h P, trivial⟩
  · exact c.touch_goesOn P (hs _ rfl) _

/-- The store that is found for a table is `h`, or is one of another table. -/
theorem apart_of_store (hown : h.Owns P.storage) (hkey : P.storage.Keyed) {t : TableId} {s : Store}
    (hs : P.storage.store t = .ok s) : c.Apart h s := by
  rintro x rfl - ht
  have hcat : P.storage.catalog[t]? = some (.detached x) := by
    unfold Tables.store at hs
    split at hs
    · rename_i r hr
      rw [hr, Except.ok.inj hs]
    · cases hs
  have htable : x.table = t := hkey t _ hcat
  have hheap := hown (.detached x) (by rw [← ht, htable]; exact hcat)
  cases hheap

theorem apart_of_quiet (hc : c.installs = false) (s : Store) : c.Apart h s := by
  intro x _ hinstalls
  rw [hc] at hinstalls
  cases hinstalls

theorem start_goesOn (hown : h.Owns P.storage) (hkey : P.storage.Keyed) {r : Request}
    (hc : c.installs = r.installs) : GoesOn h P (c.start P r) := by
  cases r with
  | lock p m => exact ⟨.refl h P, trivial⟩
  | get p a => exact ⟨.refl h P, trivial⟩
  | scan x =>
    simp only [start]
    split
    · exact ⟨.refl h P, trivial⟩
    · exact ⟨.refl h P, c.minds_collectNext x _ _ _⟩
  | insert table tuple =>
    simp only [start]
    split
    · exact ⟨.refl h P, trivial⟩
    · rename_i hs
      exact c.startInsert_goesOn P (apart_of_store hown hkey hs)
  | delete tuple =>
    simp only [start]
    split
    · exact ⟨.refl h P, trivial⟩
    · split
      · exact ⟨.refl h P, trivial⟩
      · rename_i hs
        exact c.startDelete_goesOn P _ (apart_of_store hown hkey hs)
  | insertInto s tuple => exact c.startInsert_goesOn P (apart_of_quiet hc s)
  | deleteFrom s tuple =>
    simp only [start]
    split
    · exact c.startDelete_goesOn P _ (apart_of_quiet hc _)
    · exact ⟨.refl h P, trivial⟩
    · rename_i x _
      exact c.touch_goesOn P (apart_of_quiet hc (.detached x) x rfl) _
  | complete commit =>
    exact ⟨Pool.goesOn_run (o := .settle c.txn commit) trivial trivial, trivial⟩

theorem attemptLock_goesOn (c : Call) (P : Pool Tables) (p : PageId) (m : Mode) (use : Use) :
    GoesOn h P (c.attemptLock P p m use) := by
  have hlocks : P.locks.Reachable → (P.locks.attempt p c.txn m).1.Reachable := .attempt p c.txn m
  unfold attemptLock
  split
  all_goals
    rename_i ha
    rw [ha] at hlocks
    refine ⟨Pool.goesOn_relock hlocks, ?_⟩
  · split <;> trivial
  · trivial
  · trivial

theorem useFrame_goesOn (hn : 0 < n) (hP : Pool.Bounded n P) (c : Call) (p : PageId) {f : FrameId}
    (hf : f.index < P.frames.size) (hhas : h.Has P f) (use : Use) : GoesOn h P (c.useFrame P p f use) := by
  have hchange : ∀ (c : Call) (d : PageData),
      GoesOn h P (P.setPage f ((P.page f).withData d), c.changed [f]) := by
    intro c d
    have hgoes : P.GoesOn h (P.setPage f ((P.page f).withData d)) :=
      Pool.goesOn_run (o := .touch f _) rfl trivial
    refine ⟨hgoes, minds_changed fun _ g hg => ?_⟩
    rw [List.mem_singleton.1 hg]
    exact hgoes.has hn hP hf hhas
  cases use with
  | holdLock => exact ⟨.refl h P, trivial⟩
  | deliver => exact ⟨.refl h P, trivial⟩
  | collect x pages next rows => exact ⟨.refl h P, c.minds_collectNext x _ _ _⟩
  | place i =>
    simp only [useFrame, place]
    split
    · exact hchange _ _
    · split
      · exact ⟨.refl h P, c.minds_tryNext P _⟩
      · exact ⟨.refl h P, trivial⟩
  | remove x slot =>
    simp only [useFrame, remove]
    split
    · exact hchange _ _
    · exact ⟨.refl h P, trivial⟩

/-- **What a section does to the pool is a sequence of operations that respect `h`.** -/
theorem step_goesOn (hn : 0 < n) (hP : Pool.Bounded n P) (hb : Pool.Backed h P) (hkey : P.storage.Keyed)
    (hc : c.Minds h P) (hholds : c.Holds P) : GoesOn h P (c.step P) := by
  unfold Minds at hc
  unfold Holds at hholds
  unfold step
  cases ha : c.activity with
  | start r =>
    rw [ha] at hc
    exact start_goesOn hb.owns hkey hc
  | locking p m use => exact c.attemptLock_goesOn P p m use
  | sleeping ticket p m use =>
    dsimp only
    split
    · refine ⟨.refl h P, ?_⟩
      unfold Minds
      rw [ha]
      trivial
    · exact c.attemptLock_goesOn P p m use
  | fetching p use =>
    dsimp only
    rcases hfetch : P.fetch p with ⟨Q, e | f⟩
    · exact ⟨Pool.goesOn_fetch hfetch, trivial⟩
    · have hgoes : P.GoesOn h Q := Pool.goesOn_fetch hfetch
      have hfiled := (hgoes.reaches.bounded Pool.readsOwn_tables hn hP).filed
      have hbQ := hgoes.respects.backed hb
      exact ⟨hgoes, hbQ.has hfiled (Pool.resident_of_fetch hfetch)⟩
  | working p f use =>
    rw [ha] at hc hholds
    exact c.useFrame_goesOn hn hP p (hholds f List.mem_cons_self) hc use
  | dropping i =>
    have hgoes : P.GoesOn h (P.releasePage i.page c.txn).1 :=
      Pool.goesOn_relock (.release i.page c.txn)
    dsimp only
    rcases hrelease : P.releasePage i.page c.txn with ⟨Q, e | ⟨⟩⟩
    · rw [hrelease] at hgoes
      exact ⟨hgoes, trivial⟩
    · rw [hrelease] at hgoes
      exact ⟨hgoes, c.minds_tryNext Q _⟩
  | counting i =>
    dsimp only
    split
    · exact ⟨.refl h P, trivial⟩
    · exact ⟨.refl h P, c.minds_tryNext P _⟩
  | growing i =>
    have hgrow : ∀ disk, P.storage.disk.NoShorter disk →
        P.GoesOn h { P with storage := { P.storage with disk } } := by
      intro disk hdisk
      exact Pool.goesOn_run (o := .restock { P.storage with disk }) trivial
        ⟨⟨hb.owns, hdisk.pagesOn h⟩, hkey⟩
    have hdisk := i.heap.noShorter_append P.storage.disk i.pages
    dsimp only
    rcases happend : i.heap.append P.storage.disk i.pages with ⟨disk, e | ⟨⟩⟩
    all_goals
      rw [happend] at hdisk
      exact ⟨hgrow disk hdisk, trivial⟩
  | installing fs =>
    cases fs with
    | nil => exact ⟨.refl h P, trivial⟩
    | cons f fs =>
      rw [ha] at hc hholds
      have hgoes : P.GoesOn h (P.install c.txn f).1 :=
        Pool.goesOn_run (o := .install c.txn f) (hholds f List.mem_cons_self)
          (hc f List.mem_cons_self)
      dsimp only
      rcases hinstall : P.install c.txn f with ⟨Q, e | ⟨⟩⟩
      · rw [hinstall] at hgoes
        exact ⟨hgoes, trivial⟩
      · rw [hinstall] at hgoes
        exact ⟨hgoes, fun g hg => hgoes.has hn hP (hholds g (List.mem_cons_of_mem f hg))
          (hc g (List.mem_cons_of_mem f hg))⟩
  | releasing commit r => exact ⟨Pool.goesOn_relock (.releaseAll c.txn), trivial⟩
  | ending commit r =>
    exact ⟨Pool.goesOn_run (o := .countEnd commit) trivial trivial, trivial⟩
  | finished r =>
    refine ⟨.refl h P, ?_⟩
    unfold Minds
    rw [ha]
    trivial

theorem minds_ofRequest (t : TxnId) (r : Request) : (ofRequest t r).Minds h P := by
  cases r <;> rfl

end Call

namespace World

variable {h : HeapFile} {kind : Action → Prop} {P P₀ Q : Pool Tables} {w : World} {n : Nat} {t : TxnId}

/-- What holds of a run at any time in which `h` has its table to itself. -/
structure Tenanted (h : HeapFile) (n : Nat) (w : World) : Prop where
  kept : Kept n w
  backed : w.pool.Backed h
  keyed : w.pool.storage.Keyed
  locks : w.pool.locks.Reachable
  calls : ∀ t k, w.tasks t = some k → k.call.Minds h w.pool

theorem editPage_goesOn (w : World) (t : TxnId) (p : PageId) (rule : Rule) :
    w.pool.GoesOn h (w.editPage t p rule).pool := by
  unfold editPage
  split
  · rename_i hQ
    exact Pool.goesOn_fetch hQ
  · rename_i Q f hQ
    have hfetch : w.pool.GoesOn h Q := Pool.goesOn_fetch hQ
    exact hfetch.trans (Pool.goesOn_run (o := .touch f _) rfl trivial)

/-- The pool moves on, and one transaction has another call or none. -/
theorem Tenanted.move (hn : 0 < n) (hw : Tenanted h n w) {w' : World} (hkept : Kept n w')
    (hQ : w.pool.GoesOn h w'.pool) {k : Option Task} (htasks : w'.tasks = Function.update w.tasks t k)
    (hk : ∀ k', k = some k' → k'.call.Minds h w'.pool) : Tenanted h n w' where
  kept := hkept
  backed := hQ.respects.backed hw.backed
  keyed := hQ.keyed hw.keyed
  locks := hQ.locks hn hw.kept.pool hw.locks
  calls u k' hk' := by
    rw [htasks] at hk'
    by_cases hu : u = t
    · subst hu
      exact hk k' (by simpa using hk')
    · rw [Function.update_of_ne hu] at hk'
      exact (hw.calls u k' hk').goesOn hn hw.kept.pool (hw.kept.calls u k' hk') hQ

theorem tasks_editPage (w : World) (t : TxnId) (p : PageId) (rule : Rule) :
    (w.editPage t p rule).tasks = Function.update w.tasks t none := by
  unfold editPage
  split <;> rfl

theorem Tenanted.advance (hn : 0 < n) (hw : Tenanted h n w) (t : TxnId) : Tenanted h n (w.advance t) := by
  have hkept := hw.kept.advance hn t
  cases htask : w.tasks t with
  | none =>
    have heq : w.advance t = w := by simp only [World.advance, htask]
    rw [heq]
    exact hw
  | some k =>
    by_cases hedit : ∃ rule p use, k.rule = some rule ∧ k.call.activity = .fetching p use
    · obtain ⟨rule, p, use, hrule, hact⟩ := hedit
      have heq : w.advance t = w.editPage t p rule := by simp only [World.advance, htask, hrule, hact]
      rw [heq] at hkept ⊢
      exact hw.move hn hkept (w.editPage_goesOn t p rule) (w.tasks_editPage t p rule)
        fun k' hk' => by cases hk'
    · have heq : w.advance t = w.runSection t k := by
        simp only [World.advance, htask]
        split
        · rename_i rule p use hrule hact
          exact absurd ⟨rule, p, use, hrule, hact⟩ hedit
        · rfl
      rw [heq] at hkept ⊢
      obtain ⟨hgoes, hminds⟩ := Call.step_goesOn hn hw.kept.pool hw.backed hw.keyed (hw.calls t k htask)
        (hw.kept.calls t k htask)
      exact hw.move hn hkept hgoes rfl fun k' hk' => Task.call_of_after hk' ▸ hminds

end World

/-- The action leaves `h` its table. -/
def Action.Leaves (h : HeapFile) : Action → Prop
  | register x => x.table = h.table → x = h
  | _ => True

namespace World

/-- The worlds to which runs lead in which `h` has its table to itself. Transactions make calls of any kind; around
them pages are flushed and discarded, locks are given back, images are written to, and files come to fail and to
work again. -/
inductive Hosts (h : HeapFile) (P₀ : Pool Tables) : World → Prop
  | start : Hosts h P₀ (World.start P₀)
  | act {w : World} {a : Action} : Hosts h P₀ w → a.Enabled w → a.Leaves h → Hosts h P₀ (w.act a)
  | around {w : World} {o : CacheOp Tables} :
      Hosts h P₀ w → o.Allowed w.pool → o.Plain h w.pool → Hosts h P₀ { w with pool := o.run w.pool }

section Hosts

variable {h : HeapFile} {P P₀ : Pool Tables} {w : World} {n : Nat}

theorem Tenanted.act (hn : 0 < n) (hw : Tenanted h n w) {a : Action} (ha : a.Leaves h) : Tenanted h n (w.act a) := by
  have hkept := hw.kept.act hn a
  cases a with
  | request t r =>
    exact hw.move hn hkept (.refl h w.pool) rfl fun k hk => Option.some.inj hk ▸ Call.minds_ofRequest t r
  | edit t p rule =>
    exact hw.move hn hkept (.refl h w.pool) rfl fun k hk =>
      Option.some.inj hk ▸ Call.minds_ofRequest t (.get p .write)
  | advance t => exact hw.advance hn t
  | register x =>
    have hrespects : (CacheOp.restock (w.pool.storage.register (.heap x))).Respects h w.pool := by
      refine ⟨fun s hs => ?_, Nat.le_refl _⟩
      rw [Tables.catalog_register] at hs
      split at hs
      · rename_i ht
        rw [← Option.some.inj hs, ha ht.symm]
      · exact hw.backed.owns s hs
    refine ⟨hkept, hw.backed.run hrespects, fun t s hs => ?_, hw.locks, hw.calls⟩
    change (w.pool.storage.register (.heap x)).catalog[t]? = some s at hs
    rw [Tables.catalog_register] at hs
    split at hs
    · rename_i ht
      rw [← Option.some.inj hs, ht]
      rfl
    · exact hw.keyed t s hs

theorem Tenanted.around (hn : 0 < n) (hw : Tenanted h n w) {o : CacheOp Tables} (ho : o.Allowed w.pool)
    (hp : o.Plain h w.pool) : Tenanted h n { w with pool := o.run w.pool } := by
  have hgoes : w.pool.GoesOn h (o.run w.pool) := Pool.goesOn_run ho hp
  have hreach := hgoes.reaches
  exact {
    kept := ⟨hreach.bounded Pool.readsOwn_tables hn hw.kept.pool, fun t k hk =>
      (hw.kept.calls t k hk).mono (hreach.frames_le Pool.readsOwn_tables hn hw.kept.pool)⟩
    backed := hgoes.respects.backed hw.backed
    keyed := hgoes.keyed hw.keyed
    locks := hgoes.locks hn hw.kept.pool hw.locks
    calls := fun t k hk => (hw.calls t k hk).goesOn hn hw.kept.pool (hw.kept.calls t k hk) hgoes }

/-- **In a run in which `h` has its table to itself its cached pages are pages that it has**, and the locks come
about by requests and releases. -/
theorem Hosts.tenanted {capacity : Nat} {draws : Draws} {d : Tables}
    (hP₀ : Pool.create capacity draws d = .ok P₀) (hd : h.Owns d) (hkey : d.Keyed) (hw : Hosts h P₀ w) :
    Tenanted h capacity w := by
  have hn := (Pool.bounded_create hP₀).1
  induction hw with
  | start =>
    have hbacked := Pool.backed_create hd hP₀
    have hkept := kept_start hP₀
    obtain ⟨-, rfl⟩ := Pool.create_ok hP₀
    exact ⟨hkept, hbacked, hkey, .empty, fun t k hk => by cases hk⟩
  | act _ _ ha ih => exact ih.act hn ha
  | around _ ho hp ih => exact ih.around hn ho hp

/-- The pool of such a run serves `h`, while it is registered and its length is not misreported. -/
theorem Hosts.serves {capacity : Nat} {draws : Draws} {d : Tables}
    (hP₀ : Pool.create capacity draws d = .ok P₀) (hd : h.Owns d) (hkey : d.Keyed) (hw : Hosts h P₀ w)
    (hcat : w.pool.storage.catalog[h.table]? = some (.heap h)) (hcandid : w.pool.storage.disk.Candid h.file) :
    w.pool.Serves h := by
  have hrun := hw.tenanted hP₀ hd hkey
  have hbounded := hrun.kept.pool
  have hpos := hbounded.capacity ▸ (Pool.bounded_create hP₀).1
  refine ⟨hpos, hbounded.capacity ▸ hbounded, hrun.locks.inv.1, hcat, hcandid, fun p f hf ht => ?_⟩
  rw [Tables.pages_of_heap hcat]
  exact hrun.backed.within p f hf ht

end Hosts

end World

end PageEngine
