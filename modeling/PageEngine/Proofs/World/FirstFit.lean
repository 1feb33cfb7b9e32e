import PageEngine.Proofs.Heap.Slots
import PageEngine.Proofs.Locking.Wakeups
import PageEngine.Proofs.Pool.Alike
import PageEngine.Proofs.Pool.Browsing
import PageEngine.Proofs.World.Solo
import PageEngine.Proofs.World.Tenancy

/-!
# `Proofs/World/FirstFit.lean` — an insert finds the first free slot

An insert into a heap file goes through the pages, counts them again and appends one when all are full. Alone at
a pool it ends, unless somebody else holds a page that it needs, the file fails or the cache is full of dirty pages
(`Solo.Hindered`):

> **the row goes into the first free slot, in the order of pages and slots**, and if there is none into the first
> one of one page that is appended.

The number of pages changes only when the insert itself appends one, and the appended page is read as zeros,
because no image of it can be in the cache (`Pool.Serves.within`). So what is left to do is the number of pages
that have not been tried, and an append is the end of it. Everything that the insert sees on its way is what the
pool shows when it begins (`Pool.Shows`), and so is what keeps it from ending (`Pool.Walked`): on its way it takes
nobody's lock, brings in clean pages only, and puts no fault on the file.
-/

set_option autoImplicit false

namespace PageEngine

open Std

/-- The slot is the first free one: it is free in a page that holds `d`, the slots before it are used, and so are
all slots in pages that hold `ds`. -/
structure FirstFree (l : SlotLayout) (ds : List PageData) (d : PageData) (slot : Nat) : Prop where
  full : ∀ e ∈ ds, ∀ i < l.slots, SlotLayout.isUsed e i = true
  before : ∀ i < slot, SlotLayout.isUsed d i = true
  lt : slot < l.slots
  free : SlotLayout.isUsed d slot = false

theorem firstFree_of_freeSlot {l : SlotLayout} {ds : List PageData} {d : PageData} {slot : Nat}
    (hds : ∀ e ∈ ds, l.freeSlot e = none) (hd : l.freeSlot d = some slot) : FirstFree l ds d slot where
  full e he := SlotLayout.freeSlot_eq_none.1 (hds e he)
  before _ hi := SlotLayout.isUsed_of_lt_freeSlot hd hi
  lt := (SlotLayout.freeSlot_spec hd).1
  free := (SlotLayout.freeSlot_spec hd).2

namespace Pool

/-! ## The row is put into the slot -/

/-- `Q` is `P` after `t` has put a row into a slot of the page `r.page` of `h`, in which it saw `d`. -/
structure Stored (h : HeapFile) (P Q : Pool Tables) (t : TxnId) (r : RecordId) (row : Bytes) (d : PageData) :
    Prop where
  /-- The page is in the cache, dirtied by `t`. -/
  cached : ∃ f, Q.resident[r.page]? = some f ∧ (Q.page f).dirty = some t
  used : SlotLayout.isUsed (Q.look r.page) r.slot = true
  row : h.layout.readSlot (Q.look r.page) r.slot = row
  /-- The other slots of the page are as they were, -/
  bits : ∀ i < h.layout.slots, i ≠ r.slot → SlotLayout.isUsed (Q.look r.page) i = SlotLayout.isUsed d i
  rows : ∀ i < h.layout.slots, i ≠ r.slot → h.layout.readSlot (Q.look r.page) i = h.layout.readSlot d i
  /-- and so are the other pages, -/
  others : ∀ p, p ≠ r.page → P.storage.Unaliased h p → P.Shows p (Q.look p)
  /-- and the other images that there were. -/
  images : ∀ g, g.index < P.frames.size → Q.resident[r.page]? ≠ some g → Q.page g = P.page g
  /-- No dirty page has left the cache. -/
  kept : ∀ (p : PageId) (g : FrameId), P.resident[p]? = some g → (P.page g).dirty ≠ none →
    Q.resident[p]? = some g

section Stored

variable {h : HeapFile} {P Q R : Pool Tables} {t : TxnId} {f : FrameId}

theorem Browsed.stored (hb : Browsed h P R) (hP : P.Filed) (hR : R.Filed) {r : RecordId}
    (hf : R.resident[r.page]? = some f) (ht : r.page.table = h.table)
    (hg : P.storage.GrownTo h r.page.pageNo R.storage) (hs : r.slot < h.layout.slots) {row : Bytes}
    (hrow : row.size = h.layout.width) {x : Page}
    (hx : x = ((R.page f).withData (h.layout.place (R.page f).data r.slot row)).markDirty t)
    (hresident : Q.resident = R.resident) (hstorage : Q.storage = R.storage)
    (hpage : ∀ g, Q.page g = if g = f then x else R.page g) :
    Stored h P Q t r row (R.page f).data := by
  have hQf : Q.resident[r.page]? = some f := hresident ▸ hf
  have hnew : Q.page f = x := (hpage f).trans (if_pos rfl)
  have hlook : Q.look r.page = h.layout.place (R.page f).data r.slot row := by
    rw [look_of_resident hQf, hnew, hx]
    rfl
  refine ⟨⟨f, hQf, by rw [hnew, hx]; rfl⟩, ?_, ?_, fun i hi hne => ?_, fun i hi hne => ?_, fun p hp hu => ?_,
    fun g hold hnot => ?_, fun p g hres hdirty => hresident ▸ hb.kept p g hres hdirty⟩
  · rw [hlook]
    exact SlotLayout.isUsed_place hs row
  · rw [hlook]
    exact SlotLayout.readSlot_place hs hrow
  · rw [hlook]
    exact SlotLayout.isUsed_place_other hs hi hne row
  · rw [hlook]
    exact SlotLayout.readSlot_place_other hs hi hne hrow
  · have hsame : Q.look p = R.look p := by
      unfold look
      rw [hresident, hstorage]
      split
      · rename_i g hg
        have hgf : g ≠ f := by
          rintro rfl
          exact hp (hR.eq_of_resident hf hg)
        rw [hpage, if_neg hgf]
      · rfl
    rw [hsame]
    refine hb.shows hP (hg.contents (fun heq => hp (heq.trans ?_)) hu)
    rw [← ht]
  · have hgf : g ≠ f := by
      rintro rfl
      exact hnot hQf
    rw [hpage, if_neg hgf]
    exact hb.images g hold

end Stored

/-! ## The way through the pages -/

/-- `Q` is `P` after `t` has gone through pages of `h`. -/
structure Walked (h : HeapFile) (t : TxnId) (P Q : Pool Tables) : Prop where
  browsed : Browsed h P Q
  capacity : Q.capacity = P.capacity
  /-- The cache is as full as it was, or fuller, -/
  size : P.resident.size ≤ Q.resident.size
  /-- and choices are drawn from the same words. -/
  words : Q.draws.word = P.draws.word
  /-- The others hold what they held. -/
  others : ∀ p u, u ≠ t → Q.locks.modeOf p u = P.locks.modeOf p u
  blind : Q.storage.disk.Blind h.file → P.storage.disk.Blind h.file

section Walked

variable {h : HeapFile} {t : TxnId} {P Q R : Pool Tables}

theorem Walked.refl (h : HeapFile) (t : TxnId) (P : Pool Tables) : Walked h t P P :=
  ⟨.refl h P, rfl, Nat.le_refl _, rfl, fun _ _ _ => rfl, id⟩

theorem Walked.trans (hP : P.Filed) (hQ : Q.Filed) (h₁ : Walked h t P Q) (h₂ : Walked h t Q R) :
    Walked h t P R where
  browsed := h₁.browsed.trans hP hQ h₂.browsed
  capacity := h₂.capacity.trans h₁.capacity
  size := Nat.le_trans h₁.size h₂.size
  words := h₂.words.trans h₁.words
  others p u hu := (h₂.others p u hu).trans (h₁.others p u hu)
  blind hR := h₁.blind (h₂.blind hR)

theorem walked_withLocks {L : LockTable} (hL : ∀ p u, u ≠ t → L.modeOf p u = P.locks.modeOf p u) :
    Walked h t P (P.withLocks L) :=
  ⟨browsed_of_eq rfl rfl rfl, rfl, Nat.le_refl _, rfl, hL, id⟩

/-- A page of `h` is fetched. -/
theorem Serves.walked_fetch (hP : P.Serves h) {p : PageId} (ht : p.table = h.table) {f : FrameId}
    (hfetch : P.fetch p = (Q, .ok f)) : Walked h t P Q := by
  obtain ⟨hbrowsed, -, hstorage⟩ := browsed_fetch ht hfetch
  have heffect := effect_run (o := .fetch p) readsOwn_tables hP.positive hP.bounded trivial
  have hlocks := P.locks_fetch p
  have hwords := words_fetch hP.fits p
  rw [CacheOp.run, hfetch] at heffect
  rw [hfetch] at hlocks hwords
  exact ⟨hbrowsed, heffect.capacity, size_le_fetched hP.fits hfetch, hwords, fun q u _ => by rw [hlocks],
    by rw [hstorage]; exact id⟩

/-- The dirty images are the same: those that have come in are clean. -/
theorem Browsed.dirtyImage (hb : Browsed h P Q) (hP : P.Filed) (p : PageId) : Q.dirtyImage p = P.dirtyImage p := by
  have hgone : (∀ g, P.resident[p]? = some g → Q.resident[p]? ≠ some g) → P.dirtyImage p = none := by
    intro hnot
    cases hold : P.resident[p]? with
    | none => exact dirtyImage_of_none hold
    | some g =>
      refine dirtyImage_of_clean hold ?_
      by_contra hdirty
      exact hnot g hold (hb.kept p g hold hdirty)
  cases hnew : Q.resident[p]? with
  | none => rw [dirtyImage_of_none hnew, hgone fun g _ => by rw [hnew]; exact nofun]
  | some f =>
    rcases hb.entered p f hnew with hold | ⟨hlt, -, -, hpage⟩
    · exact dirtyImage_congr (hnew.trans hold.symm) fun g hg => hb.images g (hP p g hg).1
    · rw [dirtyImage_of_clean hnew (by rw [hpage]; rfl), hgone fun g hg heq => ?_]
      obtain rfl := Option.some.inj (hnew.symm.trans heq)
      exact absurd (hP p f hg).1 (Nat.not_lt.2 hlt)

/-- A cache that has no room later had none at the beginning. -/
theorem Walked.clogged (hw : Walked h t P Q) (hP : P.Serves h) (hQ : Q.Serves h) (hclog : Q.Clogged) : P.Clogged :=
  clogged_of_dirtyImage (fun p => (hw.browsed.dirtyImage hP.bounded.filed p).symm) (hw.capacity ▸ hQ.bounded)
    hP.bounded hclog

end Walked

/-- `R` is `Q` after `t` was given the lock of a page and the page was fetched. -/
structure Opened (h : HeapFile) (t : TxnId) (p : PageId) (f : FrameId) (Q R : Pool Tables) : Prop where
  serves : Serves h R
  walked : Walked h t Q R
  storage : R.storage = Q.storage
  cached : R.resident[p]? = some f
  held : (R.locks.modeOf p t).isSome

end Pool

namespace Solo

/-- What at `P` keeps an insert of `t` into `h` from ending, and what the call comes to for it. -/
inductive Hindered (h : HeapFile) (P : Pool Tables) (t : TxnId) (s : Solo) : Prop
  /-- Somebody else holds a page of the table. The call sleeps for it, or it would close a cycle of waiting. -/
  | locked {p : PageId} {u : TxnId} (hp : p.table = h.table ∧ p.pageNo ≤ P.storage.pages h.table) (hu : u ≠ t)
      (hheld : (P.locks.modeOf p u).isSome)
      (hcall : s.call.sleepsFor s.pool = some (p, .exclusive) ∨ s.call.result? = some (.error (.aborted t)))
  /-- The file is not read, its length is not told, or it is not written any more. -/
  | failing (hdisk : P.storage.disk.Blind h.file ∨ P.storage.disk.Frozen h.file)
      (hcall : s.call.result? = some (.error diskUnavailable))
  /-- The cache is full of dirty pages. -/
  | clogged (hfull : P.Clogged) (hcall : s.call.result? = some (.error .everyPageDirty))

/-- Alone in a cache with room, over files that do not fail, it is not kept from ending. -/
theorem not_hindered {h : HeapFile} {P : Pool Tables} {t : TxnId} {s : Solo}
    (halone : ∀ p u, u ≠ t → P.locks.modeOf p u = none) (hread : ¬P.storage.disk.Blind h.file)
    (hwrite : ¬P.storage.disk.Frozen h.file) (hroom : ¬P.Clogged) : ¬Hindered h P t s := by
  rintro (⟨-, hu, hheld, -⟩ | ⟨hdisk, -⟩ | ⟨hfull, -⟩)
  · rw [halone _ _ hu] at hheld
    cases hheld
  · exact hdisk.elim hread hwrite
  · exact hroom hfull

/-- The pages of `h`, from the first one on, with the given bytes. -/
def pagesFrom (h : HeapFile) (ds : List PageData) : List (PageId × PageData) :=
  ds.mapIdx fun j e => (⟨h.table, j⟩, e)

/-- What an insert of `row` by `t` into `h`, alone at `P`, comes to: the pages before the last one that it is
handed hold `ds`, that one holds `d`, and the row is put into one of its slots. -/
structure FirstFit (h : HeapFile) (P : Pool Tables) (t : TxnId) (row : Bytes) (s : Solo) (ds : List PageData)
    (d : PageData) (slot : Nat) : Prop where
  done : s.call.result? = some (.ok .done)
  recordId : s.call.tuple = ⟨some ⟨⟨h.table, ds.length⟩, slot⟩, row⟩
  /-- The pages are handed out in order, each one once, -/
  got : s.got = pagesFrom h (ds ++ [d])
  /-- with what the pool shows of them at the beginning. -/
  shown : ∀ j e, (ds ++ [d])[j]? = some e → j < P.storage.pages h.table → P.Shows ⟨h.table, j⟩ e
  first : FirstFree h.layout ds d slot
  /-- Nothing is appended as long as there is room, and else one page of zeros. -/
  grown : P.storage.GrownTo h ds.length s.pool.storage
  fresh : ds.length = P.storage.pages h.table → d = PageData.zeros ∧ slot = 0
  stored : P.Stored h s.pool t ⟨⟨h.table, ds.length⟩, slot⟩ row d

/-! ## One page -/

section Page

variable {h : HeapFile} {P Q R : Pool Tables} {c : Call} {p : PageId} {f : FrameId} {i : Insertion}
  {got : List (PageId × PageData)}

/-- A page that is locked is fetched. -/
theorem comesTo_fetched (hP : P.Serves h) (hw : P.Walked h c.txn Q) (hQ : Q.Serves h) (ht : p.table = h.table)
    (hp : p.pageNo < Q.storage.pages h.table) (hmax : Q.storage.pages h.table ≤ maxPageNo)
    (hheld : (Q.locks.modeOf p c.txn).isSome) :
    ComesTo ⟨Q, c.goOn (.fetching p (.place i)), got⟩ fun s => Hindered h P c.txn s ∨
      ∃ R f, s = ⟨R, c.goOn (.working p f (.place i)), got⟩ ∧ Pool.Opened h c.txn p f Q R := by
  refine .later (.here ?_)
  rcases hfetch : Q.fetch p with ⟨R, e | f⟩
  · have hstep : step ⟨Q, c.goOn (.fetching p (.place i)), got⟩ = ⟨R, c.fail e, got⟩ := by
      simp [step, Call.step, Call.goOn, hfetch, Call.fail, Call.finish, Call.handed]
    rw [hstep]
    rcases hQ.fetch_error ht hp hmax hfetch with ⟨hblind, rfl⟩ | ⟨hclog, rfl⟩
    · exact .inl (.failing (.inl (hw.blind hblind)) rfl)
    · exact .inl (.clogged (hw.clogged hP hQ hclog) rfl)
  · have hstep : step ⟨Q, c.goOn (.fetching p (.place i)), got⟩ = ⟨R, c.goOn (.working p f (.place i)), got⟩ := by
      simp [step, Call.step, Call.goOn, hfetch, Call.handed]
    have hlocks : R.locks = Q.locks := by
      have hsame := Q.locks_fetch p
      rwa [hfetch] at hsame
    obtain ⟨-, hcached, hstorage⟩ := Pool.browsed_fetch ht hfetch
    rw [hstep]
    exact .inr ⟨R, f, rfl, hQ.fetch ht hfetch, hQ.walked_fetch ht hfetch, hstorage, hcached, hlocks ▸ hheld⟩

/-- A page is locked and fetched. -/
theorem comesTo_opened (hP : P.Serves h) (hw : P.Walked h c.txn Q) (hQ : Q.Serves h) (ht : p.table = h.table)
    (hp : p.pageNo < Q.storage.pages h.table) (hle : p.pageNo ≤ P.storage.pages h.table)
    (hmax : Q.storage.pages h.table ≤ maxPageNo) (i : Insertion) :
    ComesTo ⟨Q, c.goOn (.locking p .exclusive (.place i)), got⟩ fun s => Hindered h P c.txn s ∨
      ∃ R f, s = ⟨R, c.goOn (.working p f (.place i)), got⟩ ∧ Pool.Opened h c.txn p f Q R := by
  -- A request that is refused is refused because of somebody else.
  have hrefused : Q.locks.Refuses p c.txn .exclusive → ∃ u, u ≠ c.txn ∧ (P.locks.modeOf p u).isSome := by
    intro href
    obtain ⟨u, n, hu, hn, -⟩ := LockTable.refuses_iff.1 href
    exact ⟨u, hu, by rw [← hw.others p u hu, hn]; rfl⟩
  refine .later ?_
  rcases Q.locks.attempt_cases p c.txn .exclusive with ⟨l, -, ha⟩ | ⟨href, -, ha⟩ | ⟨href, -, ha⟩
  -- The lock is granted, or would close a cycle of waiting transactions, or the call goes to sleep.
  · have hcons := hQ.locks.attempt p c.txn .exclusive
    have hmode := Q.locks.modeOf_attempt p c.txn .exclusive
    rw [ha] at hcons hmode
    generalize Q.locks.grant p c.txn (Q.locks.recordFor p) l = L at ha hcons hmode
    have hheld : (L.modeOf p c.txn).isSome := by
      rw [hmode, if_pos ⟨rfl, rfl, rfl⟩]
      rfl
    have hL := hQ.withLocks hcons
    have hlock : Q.Walked h c.txn (Q.withLocks L) :=
      Pool.walked_withLocks fun q u hu => by rw [hmode, if_neg fun hc => hu hc.2.2]
    have hstep : step ⟨Q, c.goOn (.locking p .exclusive (.place i)), got⟩ =
        ⟨Q.withLocks L, c.goOn (.fetching p (.place i)), got⟩ := by
      simp [step, Call.step, Call.goOn, Call.attemptLock, ha, Call.handed]
    rw [hstep]
    refine (comesTo_fetched hP (hw.trans hP.bounded.filed hQ.bounded.filed hlock) hL ht hp hmax hheld).mono
      fun s hcome => hcome.imp_right fun hopen => ?_
    obtain ⟨R, f, hs, hopen⟩ := hopen
    exact ⟨R, f, hs, hopen.serves, hlock.trans hQ.bounded.filed hL.bounded.filed hopen.walked, hopen.storage,
      hopen.cached, hopen.held⟩
  · have hstep : step ⟨Q, c.goOn (.locking p .exclusive (.place i)), got⟩ =
        ⟨Q.withLocks ((Q.locks.waitFor c.txn p).stopWaiting c.txn), c.fail (.aborted c.txn), got⟩ := by
      simp [step, Call.step, Call.goOn, Call.attemptLock, ha, Call.fail, Call.finish, Call.handed]
    obtain ⟨u, hu, hheld⟩ := hrefused href
    rw [hstep]
    exact .here (.inl (.locked ⟨ht, hle⟩ hu hheld (.inr rfl)))
  · obtain ⟨u, hu, hheld⟩ := hrefused href
    refine .here (.inl (.locked ⟨ht, hle⟩ hu hheld (.inl ?_)))
    simp [step, Call.step, Call.goOn, Call.attemptLock, ha, Call.sleepsFor, LockTable.putToSleep,
      LockTable.sleeps, Pool.withLocks]

/-- A full page is left behind. -/
theorem comesTo_past (hR : R.Serves h) (hi : i.heap = h) (hheld : (R.locks.modeOf i.page c.txn).isSome)
    (hfull : h.layout.freeSlot (R.page f).data = none) :
    ComesTo ⟨R, c.goOn (.working i.page f (.place i)), got⟩ fun s => ∃ L, L.Consistent ∧
      (∀ p u, u ≠ c.txn → L.modeOf p u = R.locks.modeOf p u) ∧
      s = ⟨R.withLocks L, c.tryNext (R.withLocks L) { i with next := i.next + 1 },
        got ++ [(i.page, (R.page f).data)]⟩ := by
  subst hi
  refine .later ?_
  by_cases hbefore : i.heldBefore = true
  · have hstep : step ⟨R, c.goOn (.working i.page f (.place i)), got⟩ =
        ⟨R, c.tryNext R { i with next := i.next + 1 }, got ++ [(i.page, (R.page f).data)]⟩ := by
      simp [step, Call.step, Call.goOn, Call.useFrame, Call.place, hfull, hbefore, Call.handed, Call.tryNext]
    rw [hstep]
    exact .here ⟨R.locks, hR.locks, fun _ _ _ => rfl, rfl⟩
  · have hstep : step ⟨R, c.goOn (.working i.page f (.place i)), got⟩ =
        ⟨R, c.goOn (.dropping i), got ++ [(i.page, (R.page f).data)]⟩ := by
      simp [step, Call.step, Call.goOn, Call.useFrame, Call.place, hfull, hbefore, Call.handed]
    obtain ⟨L, -, hrel⟩ := LockTable.release_of_held hR.locks hheld
    have hcons := hR.locks.release i.page c.txn
    have hmode := LockTable.modeOf_release hR.locks i.page c.txn
    rw [hrel] at hcons hmode
    rw [hstep]
    refine .later (.here ⟨L, hcons, fun p u hu => by rw [hmode, if_neg fun hc => hu hc.2], ?_⟩)
    simp [step, Call.step, Call.goOn, Pool.releasePage, hrel, Call.handed, Call.tryNext]

/-- The row is put into the first free slot of a page, and the page is installed. -/
theorem comesTo_placed (hR : R.Serves h) (hi : i.heap = h) (hc : c.installs = true)
    (hcached : R.resident[i.page]? = some f) {slot : Nat}
    (hslot : h.layout.freeSlot (R.page f).data = some slot) :
    ComesTo ⟨R, c.goOn (.working i.page f (.place i)), got⟩ fun s => s.call.result? = some (.ok .done) ∧
      s.call.tuple = { c.tuple with recordId := some ⟨i.page, slot⟩ } ∧
      s.got = got ++ [(i.page, (R.page f).data)] ∧ s.pool.resident = R.resident ∧ s.pool.storage = R.storage ∧
      ∀ g, s.pool.page g = if g = f then
        ((R.page f).withData (h.layout.place (R.page f).data slot c.tuple.data)).markDirty c.txn else R.page g := by
  subst hi
  obtain ⟨hin, hid⟩ := hR.bounded.filed _ _ hcached
  generalize hnew : (R.page f).withData (i.heap.layout.place (R.page f).data slot c.tuple.data) = x
  have hx : x.id = i.page := by rw [← hnew, Page.withData_id, hid]
  have hself : (R.setPage f x).page f = x := by rw [Pool.page_setPage, if_pos ⟨rfl, hin⟩]
  have hinstall := Pool.installAll_of_resident (P := R.setPage f x) (f := f)
    (by rw [hself, hx]; exact hcached) c.txn
  rw [hself] at hinstall
  generalize htuple : { c with tuple := { c.tuple with recordId := some ⟨i.page, slot⟩ } } = c'
  have htxn : c'.txn = c.txn := by rw [← htuple]
  have hstep : step ⟨R, c.goOn (.working i.page f (.place i)), got⟩ =
      ⟨R.setPage f x, c'.goOn (.installing [f]), got ++ [(i.page, (R.page f).data)]⟩ := by
    simp [step, Call.step, Call.goOn, Call.useFrame, Call.place, hslot, Call.handed, Call.changed, hc, hnew,
      ← htuple]
  refine .later ?_
  rw [hstep]
  refine (comesTo_installing [f] (R.setPage f x) c' _).mono fun s hs => ?_
  obtain ⟨hpool, hgot, hcall⟩ := hs
  rw [htxn, hinstall] at hpool hcall
  refine ⟨by rw [hcall]; rfl, by rw [hcall, ← htuple]; rfl, hgot, by rw [hpool]; rfl, by rw [hpool]; rfl,
    fun g => ?_⟩
  rw [hpool, Pool.page_setPage, Pool.page_setPage, Pool.size_setPage]
  by_cases hg : g = f
  · rw [if_pos ⟨hg, hin⟩, if_pos hg]
  · rw [if_neg fun hc => hg hc.1, if_neg fun hc => hg hc.1, if_neg hg]

end Page

/-! ## Page after page -/

section Search

variable {h : HeapFile} {t : TxnId} {P Q R : Pool Tables} {c : Call} {ds : List PageData} {f : FrameId}

theorem pagesFrom_concat (h : HeapFile) (ds : List PageData) (d : PageData) :
    pagesFrom h (ds ++ [d]) = pagesFrom h ds ++ [(⟨h.table, ds.length⟩, d)] := by
  simp [pagesFrom, List.mapIdx_append]

/-- An insert that has been handed the first pages of `h`, which hold `ds`, and goes on to the next one. -/
def trying (h : HeapFile) (c : Call) (ds : List PageData) (Q : Pool Tables) (b : Bool) : Solo where
  pool := Q
  call := c.tryNext Q ⟨h, Q.storage.pages h.table, ds.length, b⟩
  got := pagesFrom h ds

/-- `Q` is `P` after the first pages of `h` were found to hold `ds`, and to be full. -/
structure Searched (h : HeapFile) (t : TxnId) (P : Pool Tables) (ds : List PageData) (Q : Pool Tables) : Prop where
  serves : Q.Serves h
  walked : P.Walked h t Q
  full : ∀ e ∈ ds, h.layout.freeSlot e = none
  shown : ∀ j e, ds[j]? = some e → P.Shows ⟨h.table, j⟩ e

/-- `Q` is `P` after the next page was opened, too, and its image is `f`. -/
structure Reached (h : HeapFile) (t : TxnId) (P : Pool Tables) (ds : List PageData) (f : FrameId)
    (Q : Pool Tables) : Prop extends Searched h t P ds Q where
  grown : P.storage.GrownTo h ds.length Q.storage
  cached : Q.resident[(⟨h.table, ds.length⟩ : PageId)]? = some f

theorem Reached.shows (hs : Reached h t P ds f Q) (hP : P.Serves h) (hlt : ds.length < P.storage.pages h.table) :
    P.Shows ⟨h.table, ds.length⟩ (Q.page f).data ∧ Q.storage = P.storage := by
  rcases hs.grown with ⟨-, heq⟩ | ⟨heq, -⟩
  · rw [← Pool.look_of_resident hs.cached]
    exact ⟨hs.walked.browsed.shows hP.bounded.filed (by rw [heq]), heq⟩
  · exact absurd hlt (Nat.not_lt.2 (Nat.le_of_eq heq.symm))

theorem Reached.zeros (hs : Reached h t P ds f Q) (hP : P.Serves h) (heq : ds.length = P.storage.pages h.table) :
    (Q.page f).data = PageData.zeros := by
  rcases hs.grown with ⟨hlt, -⟩ | ⟨-, ha⟩
  · exact absurd hlt (Nat.not_lt.2 (Nat.le_of_eq heq.symm))
  · exact hs.walked.browsed.zeros hP ha (heq ▸ hs.cached)

/-- A full page is one that there was. -/
theorem Reached.lt_of_full (hs : Reached h t P ds f Q) (hP : P.Serves h)
    (hfull : h.layout.freeSlot (Q.page f).data = none) : ds.length < P.storage.pages h.table := by
  rcases hs.grown with ⟨hlt, -⟩ | ⟨heq, -⟩
  · exact hlt
  · rw [hs.zeros hP heq, SlotLayout.freeSlot_zeros] at hfull
    cases hfull

/-- The pages that an insert is handed, with the last one, are what the pool shows. -/
theorem Searched.shown_concat (hs : Searched h t P ds Q) {d : PageData}
    (hd : ds.length < P.storage.pages h.table → P.Shows ⟨h.table, ds.length⟩ d) {j : Nat} {e : PageData}
    (hj : (ds ++ [d])[j]? = some e) (hlt : j < P.storage.pages h.table) : P.Shows ⟨h.table, j⟩ e := by
  rw [List.getElem?_append] at hj
  split at hj
  · exact hs.shown j e hj
  · rename_i hge
    obtain ⟨hzero, rfl⟩ := List.getElem?_eq_some_iff.1 hj
    obtain rfl : j = ds.length := by
      simp only [List.length_singleton] at hzero
      omega
    simpa using hd hlt

/-- The next page is full, too, and its lock is given back. -/
theorem Reached.past (hs : Reached h t P ds f Q) (hP : P.Serves h)
    (hfull : h.layout.freeSlot (Q.page f).data = none) {L : LockTable} (hL : L.Consistent)
    (hothers : ∀ p u, u ≠ t → L.modeOf p u = Q.locks.modeOf p u) :
    Searched h t P (ds ++ [(Q.page f).data]) (Q.withLocks L) where
  serves := hs.serves.withLocks hL
  walked := hs.walked.trans hP.bounded.filed hs.serves.bounded.filed (Pool.walked_withLocks hothers)
  full e he := by
    rcases List.mem_append.1 he with hold | hnew
    · exact hs.full e hold
    · rw [List.mem_singleton.1 hnew]
      exact hfull
  shown j e hj := by
    have hlt := hs.lt_of_full hP hfull
    have hle : j ≤ ds.length := by
      obtain ⟨hlen, -⟩ := List.getElem?_eq_some_iff.1 hj
      rw [List.length_append, List.length_singleton] at hlen
      omega
    exact hs.shown_concat (fun _ => (hs.shows hP hlt).1) hj (Nat.lt_of_le_of_lt hle hlt)

/-- The next page is opened. -/
theorem Searched.comesTo_reached (hs : Searched h c.txn P ds Q) (hP : P.Serves h)
    (hgrown : P.storage.GrownTo h ds.length Q.storage) (hmax : Q.storage.pages h.table ≤ maxPageNo) (b : Bool) :
    (trying h c ds Q b).ComesTo fun s => Hindered h P c.txn s ∨ ∃ R f i,
      s = ⟨R, c.goOn (.working i.page f (.place i)), pagesFrom h ds⟩ ∧ i.heap = h ∧ i.next = ds.length ∧
      i.pages = R.storage.pages h.table ∧ (R.locks.modeOf i.page c.txn).isSome ∧ Reached h c.txn P ds f R := by
  rw [trying, Call.tryNext, if_pos hgrown.lt]
  refine (comesTo_opened hP hs.walked hs.serves rfl hgrown.lt hgrown.le hmax _).mono fun s hcome => ?_
  rcases hcome with hhind | ⟨R, f, rfl, hopen⟩
  · exact .inl hhind
  · have hw : P.Walked h c.txn R := hs.walked.trans hP.bounded.filed hs.serves.bounded.filed hopen.walked
    have hg : P.storage.GrownTo h ds.length R.storage := by rw [hopen.storage]; exact hgrown
    exact .inr ⟨R, f, ⟨h, Q.storage.pages h.table, ds.length, Q.locks.holds ⟨h.table, ds.length⟩ c.txn⟩, rfl, rfl,
      rfl, by rw [hopen.storage], hopen.held, ⟨hopen.serves, hw, hs.full, hs.shown⟩, hg, hopen.cached⟩

/-- There is a free slot in the page, so the insert ends here. -/
theorem Reached.comesTo_firstFit (hs : Reached h c.txn P ds f R) (hP : P.Serves h) (hc : c.installs = true)
    (hrow : c.tuple.data.size = h.layout.width) {i : Insertion} (hheap : i.heap = h) (hnext : i.next = ds.length)
    {slot : Nat} (hslot : h.layout.freeSlot (R.page f).data = some slot) :
    ComesTo ⟨R, c.goOn (.working i.page f (.place i)), pagesFrom h ds⟩ fun s =>
      FirstFit h P c.txn c.tuple.data s ds (R.page f).data slot := by
  have hpage : i.page = ⟨h.table, ds.length⟩ := by rw [Insertion.page, hheap, hnext]
  refine (comesTo_placed hs.serves hheap hc (hpage ▸ hs.cached) hslot).mono fun s hplaced => ?_
  obtain ⟨hdone, htuple, hgot, hresident, hstorage, himages⟩ := hplaced
  rw [hpage] at htuple hgot
  have hfree := firstFree_of_freeSlot hs.full hslot
  refine ⟨hdone, htuple, by rw [hgot, pagesFrom_concat], fun j e hj hlt => ?_, hfree, ?_, fun heq => ?_, ?_⟩
  · exact hs.shown_concat (fun hin => (hs.shows hP hin).1) hj hlt
  · rw [hstorage]
    exact hs.grown
  · have hzeros := hs.zeros hP heq
    rw [hzeros, SlotLayout.freeSlot_zeros] at hslot
    exact ⟨hzeros, (Option.some.inj hslot).symm⟩
  · exact hs.walked.browsed.stored (r := ⟨⟨h.table, ds.length⟩, slot⟩) hP.bounded.filed
      hs.serves.bounded.filed hs.cached rfl hs.grown hfree.lt hrow rfl hresident hstorage himages

/-- **One page**: the insert ends with it, or it is one more that is full. -/
theorem Searched.comesTo_next (hs : Searched h c.txn P ds Q) (hP : P.Serves h) (hc : c.installs = true)
    (hrow : c.tuple.data.size = h.layout.width) (hgrown : P.storage.GrownTo h ds.length Q.storage)
    (hmax : Q.storage.pages h.table ≤ maxPageNo) (b : Bool) :
    (trying h c ds Q b).ComesTo fun s =>
      Hindered h P c.txn s ∨ (∃ d slot, FirstFit h P c.txn c.tuple.data s ds d slot) ∨
      ∃ d R b', s = trying h c (ds ++ [d]) R b' ∧ Searched h c.txn P (ds ++ [d]) R ∧ R.storage = P.storage ∧
        ds.length < P.storage.pages h.table ∧ (R.resident[(⟨h.table, ds.length⟩ : PageId)]?).isSome := by
  refine (hs.comesTo_reached hP hgrown hmax b).trans fun s hcome => ?_
  rcases hcome with hhind | ⟨R, f, i, rfl, hheap, hnext, hpages, hheld, hreach⟩
  · exact .here (.inl hhind)
  cases hslot : h.layout.freeSlot (R.page f).data with
  | some slot =>
    exact (hreach.comesTo_firstFit hP hc hrow hheap hnext hslot).mono fun s hfit => .inr (.inl ⟨_, slot, hfit⟩)
  | none =>
    have hlt := hreach.lt_of_full hP hslot
    refine (comesTo_past hreach.serves hheap hheld hslot).mono fun s hpast => ?_
    obtain ⟨L, hL, hothers, rfl⟩ := hpast
    refine .inr (.inr ⟨(R.page f).data, R.withLocks L, i.heldBefore, ?_, hreach.past hP hslot hL hothers,
      (hreach.shows hP hlt).2, hlt, Option.isSome_of_eq_some hreach.cached⟩)
    -- No page has been appended, so the count of the pages still holds.
    have hpage : i.page = ⟨h.table, ds.length⟩ := by rw [Insertion.page, hheap, hnext]
    have hinsertion : { i with next := i.next + 1 } =
        Insertion.mk h (R.storage.pages h.table) (ds ++ [(R.page f).data]).length i.heldBefore := by
      rw [List.length_append, List.length_singleton, ← hheap, ← hnext, hheap, ← hpages]
    rw [trying, pagesFrom_concat, hpage, hinsertion]
    rfl

/-- The pages are counted, and the next one is tried. -/
theorem comesTo_trying (ds : List PageData) (hw : P.Walked h c.txn Q) (hQ : Q.Serves h)
    (hmax : Q.storage.pages h.table ≤ maxPageNo) (n : Nat) (b : Bool) :
    ComesTo ⟨Q, c.goOn (.counting ⟨h, n, ds.length, b⟩), pagesFrom h ds⟩ fun s =>
      Hindered h P c.txn s ∨ s = trying h c ds Q b := by
  refine .later (.here ?_)
  rw [Tables.pages_of_heap hQ.catalog] at hmax
  rcases HeapFile.numPages_of_candid hQ.candid hmax with ⟨hblind, hnum⟩ | hnum
  · have hstep : step ⟨Q, c.goOn (.counting ⟨h, n, ds.length, b⟩), pagesFrom h ds⟩ =
        ⟨Q, c.fail diskUnavailable, pagesFrom h ds⟩ := by
      simp [step, Call.step, Call.goOn, hnum, Call.fail, Call.finish, Call.handed]
    rw [hstep]
    exact .inl (.failing (.inl (hw.blind hblind)) rfl)
  · rw [← Tables.pages_of_heap hQ.catalog] at hnum
    refine .inr ?_
    simp [step, Call.step, Call.goOn, hnum, Call.handed, Call.tryNext, trying]

/-- Every page is full, so one is appended. -/
theorem Searched.comesTo_appended (hs : Searched h c.txn P ds Q) (hP : P.Serves h) (hsame : Q.storage = P.storage)
    (hall : ds.length = P.storage.pages h.table) (hmax : P.storage.pages h.table ≤ maxPageNo) (b : Bool) :
    (trying h c ds Q b).ComesTo fun s => Hindered h P c.txn s ∨ ∃ n R,
      s = ⟨R, c.goOn (.counting ⟨h, n, ds.length, b⟩), pagesFrom h ds⟩ ∧ Searched h c.txn P ds R ∧
        P.storage.Appended h R.storage ∧ R.resident = Q.resident := by
  have hnone : ¬ds.length < Q.storage.pages h.table := by rw [hsame, hall]; exact Nat.lt_irrefl _
  rw [trying, Call.tryNext, if_neg hnone]
  refine .later (.here ?_)
  rcases Tables.append_of_candid hs.serves.catalog hs.serves.candid (by rw [hsame]; exact hmax) with
    ⟨hfail, disk, happend⟩ | ⟨disk, happend, hnew⟩
  · have hstep : step ⟨Q, c.goOn (.growing ⟨h, Q.storage.pages h.table, ds.length, b⟩), pagesFrom h ds⟩ =
        ⟨{ Q with storage := { Q.storage with disk } }, c.fail diskUnavailable, pagesFrom h ds⟩ := by
      simp [step, Call.step, Call.goOn, happend, Call.fail, Call.finish, Call.handed]
    rw [hsame] at hfail
    rw [hstep]
    exact .inl (.failing hfail rfl)
  · have hstep : step ⟨Q, c.goOn (.growing ⟨h, Q.storage.pages h.table, ds.length, b⟩), pagesFrom h ds⟩ =
        ⟨{ Q with storage := { Q.storage with disk } },
          c.goOn (.counting ⟨h, Q.storage.pages h.table, ds.length, b⟩), pagesFrom h ds⟩ := by
      simp [step, Call.step, Call.goOn, happend, Call.handed]
    obtain ⟨hserves, hbrowsed⟩ := hs.serves.append hnew
    have hw : P.Walked h c.txn { Q with storage := { Q.storage with disk } } :=
      hs.walked.trans hP.bounded.filed hs.serves.bounded.filed
        ⟨hbrowsed, rfl, Nat.le_refl _, rfl, fun _ _ _ => rfl, hnew.blind⟩
    rw [hstep]
    exact .inr ⟨_, _, rfl, ⟨hserves, hw, hs.full, hs.shown⟩, hsame ▸ hnew, rfl⟩

end Search

/-- An insert alone counts the pages, and begins with the first one. -/
theorem comesTo_first {h : HeapFile} {P : Pool Tables} (hP : P.Serves h) (hmax : P.storage.pages h.table ≤ maxPageNo)
    (t : TxnId) {row : Tuple} (hrow : row.data.size = h.layout.width) :
    ComesTo { pool := P, call := .ofRequest t (.insert h.table row) } fun s => Hindered h P t s ∨
      ∃ c, s = trying h c [] P false ∧ c.txn = t ∧ c.tuple = row ∧ c.installs = true ∧ Searched h t P [] P := by
  generalize hc : Call.ofRequest t (.insert h.table row) = c
  have htxn : c.txn = t := by rw [← hc]; rfl
  have hrow' : c.tuple = row := by rw [← hc]; rfl
  have hinstalls : c.installs = true := by rw [← hc]; rfl
  have hstart : step ⟨P, c, []⟩ = ⟨P, c.goOn (.counting ⟨h, 0, 0, false⟩), []⟩ := by
    simp [step, ← hc, Call.ofRequest, Call.step, Call.start, Tables.store_of_heap hP.catalog, Call.startInsert, hrow,
      Call.goOn, Call.handed]
  subst htxn
  refine .later ?_
  rw [hstart]
  refine (comesTo_trying [] (.refl h c.txn P) hP hmax 0 false).mono fun s hcome => hcome.imp_right fun heq => ?_
  exact ⟨c, heq, rfl, hrow', hinstalls, hP, .refl h c.txn P, fun e he => absurd he List.not_mem_nil,
    fun j e hj => by simp at hj⟩

/-- A heap file with one row on a page. -/
def wideFile : HeapFile :=
  ⟨⟨1⟩, { name := "t" }, ⟨4095, by decide, by decide, by decide, by decide⟩⟩

/-- Tables of which the one has the given bytes. -/
def wideTables (b : Bytes) : Tables :=
  Tables.register { disk := Disk.put {} "t" { file := .memory { bytes := b } } } (.heap wideFile)

section Wide

variable (b : Bytes)

theorem wideTables_registered : (wideTables b).catalog[wideFile.table]? = some (.heap wideFile) := by
  rw [wideTables, Tables.catalog_register]
  rfl

theorem wideTables_bytesOf : (wideTables b).bytesOf wideFile.table = b := by
  rw [Tables.bytesOf_of_heap (wideTables_registered b)]
  simp [wideTables, Tables.register, wideFile, Disk.bytes, Disk.file_put, File.bytes]

end Wide

/-- Two pages, of which the first is full. -/
def wideBytes : Bytes := Array.replicate pageSize 1 ++ Bytes.zeros pageSize

theorem wideTables_pages : (wideTables wideBytes).pages wideFile.table = 2 := by
  rw [Tables.pages, wideTables_bytesOf]
  simp [wideBytes, pageSize]

def wideRow : Tuple := { data := Array.replicate 4095 17 }

end Solo

end PageEngine
