import PageEngine.Proofs.Heap.Slots
import PageEngine.Proofs.Locking.Frame
import PageEngine.Proofs.Pool.Browsing
import PageEngine.Proofs.Storage.Lengthening
import PageEngine.Proofs.World.Solo

/-!
# `Proofs/World/Probing.lean` — an insert on its way through the pages

An insert that nobody comes in between locks a page after another, looks for a free slot, and gives back the
lock of a full page that it took itself. Calls on the files fail when they like (`Solo.Leads`), so that it may
end anywhere on this way. Until it places its row it only browses (`Pool.Probed`), and

> **between two pages the transaction holds what it held at the beginning**, and while a page is looked at it
> holds that page besides (`Stage`).

Once the row is placed nothing can fail any more: the page is in the cache, so there is room for it
(`Solo.Landed`).

An appended page has a free slot, so a page past the old end of the file that is found full was not read from
the file. It was in the cache at the beginning (`Pool.Stale`), from a longer file that the table had before.
-/

set_option autoImplicit false

namespace PageEngine

open Std

namespace Pool

section Probed

variable {h : HeapFile} {P Q R : Pool Tables} {p : PageId} {f : FrameId} {n : Nat}

/-- The pages past the end of `h` with numbers below `n` are in the cache all the same. -/
def Stale (h : HeapFile) (P : Pool Tables) (n : Nat) : Prop :=
  ∀ j, P.storage.pages h.table ≤ j → j < n → (P.resident[(⟨h.table, j⟩ : PageId)]?).isSome

theorem Stale.mono {m : Nat} (hn : Stale h P n) (hm : m ≤ n) : Stale h P m :=
  fun j hj hlt => hn j hj (Nat.lt_of_lt_of_le hlt hm)

/-- What the search for a free slot leaves of the pool `P`. -/
structure Probed (h : HeapFile) (P Q : Pool Tables) : Prop where
  positive : 0 < P.capacity
  bounded : Bounded P.capacity Q
  locks : Q.locks.Consistent
  candid : Q.storage.disk.Candid h.file
  browsed : Browsed h P Q
  longer : ∃ k, P.storage.Longer h k Q.storage
  /-- Only the last page of the file can be one that was appended and was not in the cache. -/
  stale : Stale h P (Q.storage.pages h.table - 1)

theorem browsed_of_shrunk (hs : Shrunk Q R) : Browsed h Q R where
  frames := Nat.le_of_eq (by rw [hs.frames])
  images g _ := page_congr hs.frames g
  kept p g hg hdirty := by
    obtain ⟨u, hu⟩ := Option.ne_none_iff_exists'.1 hdirty
    exact hs.resident_of_dirty hg hu
  entered p g hg := .inl (hs.resident_of_some hg)
  pages := Nat.le_of_eq (by rw [hs.storage])
  contents p _ _ := by rw [hs.storage]

theorem browsed_refaulted {disk : Disk} (hd : Q.storage.disk.Refaulted disk) :
    Browsed h Q { Q with storage := { Q.storage with disk } } where
  frames := Nat.le_refl _
  images _ _ := rfl
  kept _ _ hg _ := hg
  entered _ _ hg := .inl hg
  pages := Nat.le_of_eq (Tables.pages_of_refaulted hd _).symm
  contents p _ _ := Tables.contents_of_refaulted hd p

theorem Probed.filed (hq : Probed h P Q) : Q.Filed := hq.bounded.filed

theorem Probed.catalog (hq : Probed h P Q) : Q.storage.catalog = P.storage.catalog := by
  obtain ⟨k, hk⟩ := hq.longer
  exact hk.catalog

theorem Probed.refaulted (hq : Probed h P Q) (hP : P.Filed) {disk : Disk}
    (hd : Q.storage.disk.Refaulted disk) : Probed h P { Q with storage := { Q.storage with disk } } := by
  obtain ⟨k, hk⟩ := hq.longer
  have hpages : Tables.pages { Q.storage with disk } h.table = Q.storage.pages h.table :=
    Tables.pages_of_refaulted hd _
  refine ⟨hq.positive, ⟨hq.bounded.capacity, hq.bounded.size, hq.bounded.filed⟩, hq.locks, hd.candid hq.candid,
    hq.browsed.trans hP hq.filed (browsed_refaulted hd), ⟨k, hk.refaulted hd⟩, ?_⟩
  rw [hpages]
  exact hq.stale

theorem Probed.withLocks (hq : Probed h P Q) (hP : P.Filed) {L : LockTable} (hL : L.Consistent) :
    Probed h P (Q.withLocks L) :=
  ⟨hq.positive, ⟨hq.bounded.capacity, hq.bounded.size, hq.bounded.filed⟩, hL, hq.candid,
    hq.browsed.trans hP hq.filed (browsed_of_eq rfl rfl rfl), hq.longer, hq.stale⟩

/-- A page is fetched, or it is not. -/
theorem Probed.fetch (hq : Probed h P Q) (hP : P.Filed) (ht : p.table = h.table) {r : Except Error FrameId}
    (hfetch : Q.fetch p = (R, r)) :
    Probed h P R ∧ R.locks = Q.locks ∧ R.storage = Q.storage ∧ ∀ f, r = .ok f → R.resident[p]? = some f := by
  have hstep : Browsed h Q R ∧ R.storage = Q.storage ∧ ∀ f, r = .ok f → R.resident[p]? = some f := by
    cases r with
    | ok f =>
      obtain ⟨hb, hf, hs⟩ := browsed_fetch ht hfetch
      exact ⟨hb, hs, fun g hg => Except.ok.inj hg ▸ hf⟩
    | error e =>
      rcases Q.fetch_reads p with ⟨R', g, -, -, -, hhit⟩ | ⟨R', e', hR, hfail⟩ | ⟨R', x, -, -, -, hnew⟩
      · rw [hhit] at hfetch
        cases (Prod.mk.inj hfetch).2
      · rw [hfail] at hfetch
        obtain rfl := (Prod.mk.inj hfetch).1
        exact ⟨browsed_of_shrunk hR, hR.storage, nofun⟩
      · rw [hnew] at hfetch
        cases (Prod.mk.inj hfetch).2
  obtain ⟨hb, hs, hf⟩ := hstep
  have hlocks := Q.locks_fetch p
  have heffect := effect_run (o := .fetch p) readsOwn_tables hq.positive hq.bounded trivial
  rw [hfetch] at hlocks
  rw [CacheOp.run, hfetch] at heffect
  refine ⟨⟨hq.positive, heffect.bounded hq.bounded, hlocks ▸ hq.locks, hs ▸ hq.candid,
    hq.browsed.trans hP hq.filed hb, hs ▸ hq.longer, hs ▸ hq.stale⟩, hlocks, hs, hf⟩

/-- A page is appended after all pages were found to be full. -/
theorem Probed.append (hq : Probed h P Q) (hP : P.Filed) (hfull : Stale h P (Q.storage.pages h.table))
    {d : Tables} (ha : Tables.Appended h Q.storage d) : Probed h P { Q with storage := d } := by
  obtain ⟨k, hk⟩ := hq.longer
  have hb : Browsed h Q { Q with storage := d } := by
    refine ⟨Nat.le_refl _, fun _ _ => rfl, fun _ _ hg _ => hg, fun _ _ hg => .inl hg,
      ha.pages ▸ Nat.le_succ _, fun p ht hlt => ha.contents p ht ?_⟩
    rintro rfl
    exact Nat.lt_irrefl _ hlt
  refine ⟨hq.positive, ⟨hq.bounded.capacity, hq.bounded.size, hq.bounded.filed⟩, hq.locks, ha.candid,
    hq.browsed.trans hP hq.filed hb, ⟨k + 1, hk.appended ha⟩, ?_⟩
  rw [ha.pages, Nat.add_sub_cancel]
  exact hfull

/-- **A full page past the old end of the file was in the cache.** -/
theorem Probed.stale_of_full (hq : Probed h P Q) {i : Nat} (hi : Stale h P i)
    (hf : Q.resident[(⟨h.table, i⟩ : PageId)]? = some f) (hlt : i < Q.storage.pages h.table)
    (hfull : h.layout.freeSlot (Q.page f).data = none) : Stale h P (i + 1) := by
  intro j hj hji
  rcases Nat.lt_succ_iff_lt_or_eq.1 hji with hbefore | rfl
  · exact hi j hj hbefore
  rcases hq.browsed.entered _ f hf with hold | ⟨-, -, -, hpage⟩
  · rw [hold]
    rfl
  · -- It was read from the file, where it is a page of zeros.
    obtain ⟨k, hk⟩ := hq.longer
    have hzeros := hk.zeros (j - P.storage.pages h.table) (by rw [hk.pages] at hlt; omega)
    rw [Nat.add_sub_cancel' hj] at hzeros
    rw [hpage, Page.ofData, hzeros, SlotLayout.freeSlot_zeros] at hfull
    cases hfull

end Probed

end Pool

/-! ## The sections of an insert -/

namespace Solo

/-- The call alone, after some sections, in between which calls on files begin and cease to fail. -/
inductive Leads (s : Solo) : Solo → Prop
  | refl : Leads s s
  | step {s' : Solo} : Leads s s' → Leads s s'.step
  | refault {s' : Solo} {disk : Disk} : Leads s s' → s'.pool.storage.disk.Refaulted disk →
      Leads s { s' with pool := { s'.pool with storage := { s'.pool.storage with disk } } }

section Stages

variable {h : HeapFile} {t : TxnId} {row : Tuple} {P Q R : Pool Tables} {c : Call} {p : PageId} {f : FrameId}
  {i : Insertion}

/-- `t` holds the pages that it held in `P`. -/
def Rests (t : TxnId) (P Q : Pool Tables) : Prop := Q.locks.heldSet t = P.locks.heldSet t

/-- `t` holds the pages that it held in `P` and `p`. -/
def Adds (t : TxnId) (P Q : Pool Tables) (p : PageId) : Prop :=
  Q.locks.heldSet t = (P.locks.heldSet t).insert p

/-- The insert has counted the pages of `h`, and the ones before the next one were full. -/
structure Counted (h : HeapFile) (P Q : Pool Tables) (i : Insertion) : Prop where
  heap : i.heap = h
  pages : i.pages = Q.storage.pages h.table
  past : Pool.Stale h P i.next

/-- The insert tries the page `p`. -/
structure Aimed (h : HeapFile) (t : TxnId) (P Q : Pool Tables) (p : PageId) (i : Insertion) : Prop
    extends Counted h P Q i where
  page : p = i.page
  lt : i.next < i.pages
  heldBefore : i.heldBefore = true ↔ p ∈ P.locks.heldSet t

/-- Where an insert of `t` into `h` stands that began at `P` and has not placed its row yet. -/
def Stage (h : HeapFile) (t : TxnId) (P Q : Pool Tables) : Activity → Prop
  | .start r => (∃ x, r = .insert h.table x) ∧ Rests t P Q
  | .counting i => i.heap = h ∧ Pool.Stale h P i.next ∧ Rests t P Q
  | .locking p m (.place i) => m = .exclusive ∧ Aimed h t P Q p i ∧ Rests t P Q
  | .sleeping _ p m (.place i) => m = .exclusive ∧ Aimed h t P Q p i ∧ Rests t P Q
  | .fetching p (.place i) => Aimed h t P Q p i ∧ Adds t P Q p
  | .working p f (.place i) => Aimed h t P Q p i ∧ Adds t P Q p ∧ Q.resident[p]? = some f
  | .dropping i => Counted h P Q { i with next := i.next + 1 } ∧ i.page ∉ P.locks.heldSet t ∧ Adds t P Q i.page
  | .growing i => Counted h P Q i ∧ i.pages ≤ i.next ∧ Rests t P Q
  | _ => False

/-- An insert of `row` that has not placed it yet. -/
structure Probing (h : HeapFile) (t : TxnId) (row : Tuple) (P Q : Pool Tables) (c : Call) : Prop where
  txn : c.txn = t
  tuple : c.tuple = row
  installs : c.installs = true
  probed : P.Probed h Q
  stage : Stage h t P Q c.activity

/-- An insert that has placed its row. What is left is to mark the page and to return. -/
structure Landed (h : HeapFile) (t : TxnId) (P Q : Pool Tables) (c : Call) : Prop where
  placed : ∃ r, c.tuple.recordId = some r ∧ r.page.table = h.table ∧ Adds t P Q r.page
  rest : (∃ f, c.activity = .installing [f] ∧ Q.resident[(Q.page f).id]? = some f) ∨
    c.activity = .installing [] ∨ c.activity = .finished (.ok .done)

/-- An insert that has failed in the section of the activity `a`: it held what it held at the beginning, or it
could not fetch a page, which it then holds besides. -/
structure Failed (h : HeapFile) (t : TxnId) (row : Tuple) (P : Pool Tables) (a : Activity) (Q : Pool Tables)
    (c : Call) : Prop where
  result : ∃ e, c.activity = .finished (.error e)
  tuple : c.tuple = row
  probed : P.Probed h Q
  held : Rests t P Q ∨ ∃ p i, a = .fetching p (.place i) ∧ Adds t P Q p

/-- What becomes of an insert in one section. -/
def Next (h : HeapFile) (t : TxnId) (row : Tuple) (P : Pool Tables) (a : Activity) (r : Pool Tables × Call) :
    Prop :=
  Probing h t row P r.1 r.2 ∨ Landed h t P r.1 r.2 ∨ Failed h t row P a r.1 r.2

theorem Probing.goOn (hc : Probing h t row P Q c) {a : Activity} (hR : P.Probed h R) (ha : Stage h t P R a) :
    Probing h t row P R (c.goOn a) := ⟨hc.txn, hc.tuple, hc.installs, hR, ha⟩

theorem Probing.fail (hc : Probing h t row P Q c) {a : Activity} (hR : P.Probed h R)
    (ha : Rests t P R ∨ ∃ p i, a = .fetching p (.place i) ∧ Adds t P R p) (e : Error) :
    Failed h t row P a R (c.fail e) := ⟨⟨e, rfl⟩, hc.tuple, hR, ha⟩

theorem Probing.tryNext (hc : Probing h t row P Q c) (hR : P.Probed h R) (hi : Counted h P R i)
    (hrests : Rests t P R) : Probing h t row P R (c.tryNext R i) := by
  unfold Call.tryNext
  split
  · rename_i hlt
    refine hc.goOn hR ⟨rfl, ⟨⟨hi.heap, hi.pages, hi.past⟩, rfl, hlt, ?_⟩, hrests⟩
    rw [← hrests, hR.locks.heldBy, hc.txn]
    rfl
  · rename_i hle
    exact hc.goOn hR ⟨hi, Nat.not_lt.1 hle, hrests⟩

/-- The page is locked, or it is not. -/
theorem Probing.attempt (hc : Probing h t row P Q c) (hP : P.Filed) (ha : Aimed h t P Q p i) (hrests : Rests t P Q)
    (a : Activity) : Next h t row P a (c.attemptLock Q p .exclusive (.place i)) := by
  have hcons := hc.probed.locks.attempt p t .exclusive
  have hheld := LockTable.heldSet_attempt Q.locks p t .exclusive t
  unfold Call.attemptLock
  rw [hc.txn]
  rcases hatt : Q.locks.attempt p t .exclusive with ⟨L, g | k | _⟩
  · rw [hatt] at hcons hheld
    have hL := hc.probed.withLocks hP hcons
    refine .inl (hc.goOn hL ⟨⟨⟨ha.heap, ha.pages, ha.past⟩, ha.page, ha.lt, ha.heldBefore⟩, ?_⟩)
    rw [if_pos ⟨rfl, rfl⟩, hrests] at hheld
    exact hheld
  · rw [hatt] at hcons hheld
    have hL := hc.probed.withLocks hP hcons
    have hsame : Rests t P (Q.withLocks L) := by
      rw [if_neg (by simp)] at hheld
      exact hheld.trans hrests
    exact .inl (hc.goOn hL ⟨rfl, ⟨⟨ha.heap, ha.pages, ha.past⟩, ha.page, ha.lt, ha.heldBefore⟩, hsame⟩)
  · rw [hatt] at hcons hheld
    have hL := hc.probed.withLocks hP hcons
    have hsame : Rests t P (Q.withLocks L) := by
      rw [if_neg (by simp)] at hheld
      exact hheld.trans hrests
    exact .inr (.inr (hc.fail hL (.inl hsame) _))

/-- The page is fetched, or it is not. -/
theorem Probing.fetch (hc : Probing h t row P Q c) (hP : P.Filed) (hact : c.activity = .fetching p (.place i))
    (ha : Aimed h t P Q p i) (hadds : Adds t P Q p) : Next h t row P c.activity (c.step Q) := by
  have ht : p.table = h.table := by rw [ha.page, Insertion.page, ha.heap]
  rcases hfetch : Q.fetch p with ⟨R, e | f⟩
  · obtain ⟨hR, hlocks, -, -⟩ := hc.probed.fetch hP ht hfetch
    have hstep : c.step Q = (R, c.fail e) := by simp [Call.step, hact, hfetch]
    rw [hstep]
    refine .inr (.inr (hc.fail hR (.inr ⟨p, i, hact, ?_⟩) e))
    rw [Adds, hlocks]
    exact hadds
  · obtain ⟨hR, hlocks, hstorage, hcached⟩ := hc.probed.fetch hP ht hfetch
    have hstep : c.step Q = (R, c.goOn (.working p f (.place i))) := by simp [Call.step, hact, hfetch]
    rw [hstep]
    refine .inl (hc.goOn hR ⟨⟨⟨ha.heap, ?_, ha.past⟩, ha.page, ha.lt, ha.heldBefore⟩, ?_, hcached f rfl⟩)
    · rw [hstorage]
      exact ha.pages
    · rw [Adds, hlocks]
      exact hadds

/-- The row is placed, or the page is full. -/
theorem Probing.place (hc : Probing h t row P Q c) (hact : c.activity = .working p f (.place i))
    (ha : Aimed h t P Q p i) (hadds : Adds t P Q p) (hcached : Q.resident[p]? = some f) :
    Next h t row P c.activity (c.step Q) := by
  have hheap := ha.heap
  have hpage := ha.page
  subst hheap hpage
  cases hslot : i.heap.layout.freeSlot (Q.page f).data with
  | some slot =>
    obtain ⟨hin, hid⟩ := hc.probed.filed _ _ hcached
    generalize hx : (Q.page f).withData (i.heap.layout.place (Q.page f).data slot c.tuple.data) = x
    have hstep : c.step Q = (Q.setPage f x,
        { c with tuple := { c.tuple with recordId := some ⟨i.page, slot⟩ } }.goOn (.installing [f])) := by
      simp [Call.step, hact, Call.useFrame, Call.place, hslot, Call.changed, hc.installs, ← hx]
    rw [hstep]
    refine .inr (.inl ⟨⟨⟨i.page, slot⟩, rfl, rfl, hadds⟩, .inl ⟨f, rfl, ?_⟩⟩)
    have hnew : ((Q.setPage f x).page f).id = i.page := by
      rw [Pool.page_setPage, if_pos ⟨rfl, hin⟩, ← hx, Page.withData_id, hid]
    show Q.resident[((Q.setPage f x).page f).id]? = some f
    rw [hnew]
    exact hcached
  | none =>
    have hlt : i.next < Q.storage.pages i.heap.table := ha.pages ▸ ha.lt
    have hnext : Counted i.heap P Q { i with next := i.next + 1 } :=
      ⟨rfl, ha.pages, hc.probed.stale_of_full ha.past hcached hlt hslot⟩
    by_cases hbefore : i.heldBefore = true
    · have hstep : c.step Q = (Q, c.tryNext Q { i with next := i.next + 1 }) := by
        simp [Call.step, hact, Call.useFrame, Call.place, hslot, hbefore]
      have hrests : Rests t P Q := by
        refine hadds.trans (ExtTreeSet.ext_mem fun q => ?_)
        rw [ExtTreeSet.mem_insert, Std.compare_eq_iff_eq]
        exact ⟨fun hq => hq.elim (fun heq => heq ▸ ha.heldBefore.1 hbefore) id, .inr⟩
      rw [hstep]
      exact .inl (hc.tryNext hc.probed hnext hrests)
    · have hstep : c.step Q = (Q, c.goOn (.dropping i)) := by
        simp [Call.step, hact, Call.useFrame, Call.place, hslot, hbefore]
      rw [hstep]
      exact .inl (hc.goOn hc.probed ⟨hnext, fun hin => hbefore (ha.heldBefore.2 hin), hadds⟩)

/-- The lock of a full page that the call took itself is given back. -/
theorem Probing.drop (hc : Probing h t row P Q c) (hP : P.Filed) (hact : c.activity = .dropping i)
    (hi : Counted h P Q { i with next := i.next + 1 }) (hnot : i.page ∉ P.locks.heldSet t)
    (hadds : Adds t P Q i.page) : Next h t row P c.activity (c.step Q) := by
  have hcons := hc.probed.locks
  have hheld : (Q.locks.modeOf i.page t).isSome := by
    rw [← hcons.heldBy, hadds]
    exact ExtTreeSet.mem_insert_self
  obtain ⟨L, -, hrel⟩ := LockTable.release_of_held hcons hheld
  have hL := hcons.release i.page t
  have hmode := LockTable.modeOf_release hcons i.page t
  rw [hrel] at hL hmode
  have hrests : Rests t P (Q.withLocks L) := by
    refine ExtTreeSet.ext_mem fun q => ?_
    show q ∈ L.heldSet t ↔ _
    rw [hL.heldBy, hmode]
    by_cases hq : q = i.page
    · rw [if_pos ⟨hq, rfl⟩, hq]
      exact ⟨nofun, fun hin => absurd hin hnot⟩
    · rw [if_neg fun hboth => hq hboth.1, ← hcons.heldBy, hadds, ExtTreeSet.mem_insert, Std.compare_eq_iff_eq]
      exact ⟨fun hin => hin.elim (fun heq => absurd heq.symm hq) id, .inr⟩
  have hstep : c.step Q = (Q.withLocks L, c.tryNext (Q.withLocks L) { i with next := i.next + 1 }) := by
    simp [Call.step, hact, Pool.releasePage, hc.txn, hrel]
  rw [hstep]
  exact .inl (hc.tryNext (hc.probed.withLocks hP hL) ⟨hi.heap, hi.pages, hi.past⟩ hrests)

/-- The pages are counted, or they cannot be. -/
theorem Probing.count (hc : Probing h t row P Q c) (hcat : P.storage.catalog[h.table]? = some (.heap h))
    (hact : c.activity = .counting i) (hheap : i.heap = h) (hpast : Pool.Stale h P i.next) (hrests : Rests t P Q) :
    Next h t row P c.activity (c.step Q) := by
  subst hheap
  have hcatQ : Q.storage.catalog[i.heap.table]? = some (.heap i.heap) := by
    rw [hc.probed.catalog]
    exact hcat
  cases hnum : i.heap.numPages Q.storage.disk with
  | error e =>
    have hstep : c.step Q = (Q, c.fail e) := by simp [Call.step, hact, hnum]
    rw [hstep]
    exact .inr (.inr (hc.fail hc.probed (.inl hrests) e))
  | ok n =>
    have hn : n = Q.storage.pages i.heap.table := by
      rw [Tables.pages_of_heap hcatQ, HeapFile.eq_of_numPages hc.probed.candid hnum]
    have hstep : c.step Q = (Q, c.tryNext Q { i with pages := n }) := by simp [Call.step, hact, hnum]
    rw [hstep]
    exact .inl (hc.tryNext hc.probed ⟨rfl, hn, hpast⟩ hrests)

/-- The file grows, or it does not. -/
theorem Probing.grow (hc : Probing h t row P Q c) (hP : P.Filed)
    (hcat : P.storage.catalog[h.table]? = some (.heap h)) (hact : c.activity = .growing i)
    (hi : Counted h P Q i) (hle : i.pages ≤ i.next) (hrests : Rests t P Q) :
    Next h t row P c.activity (c.step Q) := by
  have hheap := hi.heap
  subst hheap
  have hcatQ : Q.storage.catalog[i.heap.table]? = some (.heap i.heap) := by
    rw [hc.probed.catalog]
    exact hcat
  have hfull : Pool.Stale i.heap P (Q.storage.pages i.heap.table) := hi.past.mono (hi.pages ▸ hle)
  rcases Tables.append_spec hcatQ hc.probed.candid with ⟨disk, e, happ, hdisk⟩ | ⟨disk, happ, hgrown⟩
  · rw [← hi.pages] at happ
    have hstep : c.step Q = ({ Q with storage := { Q.storage with disk } }, c.fail e) := by
      simp [Call.step, hact, happ]
    rw [hstep]
    exact .inr (.inr (hc.fail (hc.probed.refaulted hP hdisk) (.inl hrests) e))
  · rw [← hi.pages] at happ
    have hstep : c.step Q = ({ Q with storage := { Q.storage with disk } }, c.goOn (.counting i)) := by
      simp [Call.step, hact, happ]
    rw [hstep]
    exact .inl (hc.goOn (hc.probed.append hP hfull hgrown) ⟨rfl, hi.past, hrests⟩)

theorem Probing.start (hc : Probing h t row P Q c) (hcat : P.storage.catalog[h.table]? = some (.heap h))
    {x : Tuple} (hact : c.activity = .start (.insert h.table x)) (hrests : Rests t P Q) :
    Next h t row P c.activity (c.step Q) := by
  have hcatQ : Q.storage.catalog[h.table]? = some (.heap h) := by
    rw [hc.probed.catalog]
    exact hcat
  by_cases hwidth : c.tuple.data.size = h.layout.width
  · have hstep : c.step Q = (Q, c.goOn (.counting { heap := h })) := by
      simp [Call.step, hact, Call.start, Tables.store_of_heap hcatQ, Call.startInsert, hwidth]
    rw [hstep]
    exact .inl (hc.goOn hc.probed ⟨rfl, fun j _ hj => absurd hj (Nat.not_lt_zero j), hrests⟩)
  · have hstep : c.step Q = (Q, c.fail .wrongTupleWidth) := by
      simp [Call.step, hact, Call.start, Tables.store_of_heap hcatQ, Call.startInsert, hwidth]
    rw [hstep]
    exact .inr (.inr (hc.fail hc.probed (.inl hrests) _))

/-- **One section of an insert** that has not placed its row yet. -/
theorem Probing.step (hc : Probing h t row P Q c) (hP : P.Filed)
    (hcat : P.storage.catalog[h.table]? = some (.heap h)) : Next h t row P c.activity (c.step Q) := by
  have hstage := hc.stage
  cases hact : c.activity with
  | start r =>
    rw [hact] at hstage
    obtain ⟨⟨x, rfl⟩, hrests⟩ := hstage
    exact hact ▸ hc.start hcat hact hrests
  | locking p m use =>
    rw [hact] at hstage
    cases use with
    | place i =>
      obtain ⟨rfl, ha, hrests⟩ := hstage
      have hstep : c.step Q = c.attemptLock Q p .exclusive (.place i) := by simp [Call.step, hact]
      rw [hstep]
      exact hc.attempt hP ha hrests _
    | _ => exact hstage.elim
  | sleeping ticket p m use =>
    rw [hact] at hstage
    cases use with
    | place i =>
      obtain ⟨rfl, ha, hrests⟩ := hstage
      by_cases hsleeps : Q.locks.sleeps ticket = true
      · have hstep : c.step Q = (Q, c) := by simp [Call.step, hact, hsleeps]
        rw [hstep]
        exact .inl hc
      · have hstep : c.step Q = c.attemptLock Q p .exclusive (.place i) := by simp [Call.step, hact, hsleeps]
        rw [hstep]
        exact hc.attempt hP ha hrests _
    | _ => exact hstage.elim
  | fetching p use =>
    rw [hact] at hstage
    cases use with
    | place i => exact hact ▸ hc.fetch hP hact hstage.1 hstage.2
    | _ => exact hstage.elim
  | working p f use =>
    rw [hact] at hstage
    cases use with
    | place i => exact hact ▸ hc.place hact hstage.1 hstage.2.1 hstage.2.2
    | _ => exact hstage.elim
  | dropping i =>
    rw [hact] at hstage
    exact hact ▸ hc.drop hP hact hstage.1 hstage.2.1 hstage.2.2
  | counting i =>
    rw [hact] at hstage
    exact hact ▸ hc.count hcat hact hstage.1 hstage.2.1 hstage.2.2
  | growing i =>
    rw [hact] at hstage
    exact hact ▸ hc.grow hP hcat hact hstage.1 hstage.2.1 hstage.2.2
  | installing fs =>
    rw [hact] at hstage
    exact hstage.elim
  | releasing b r =>
    rw [hact] at hstage
    exact hstage.elim
  | ending b r =>
    rw [hact] at hstage
    exact hstage.elim
  | finished r =>
    rw [hact] at hstage
    exact hstage.elim

/-- **What follows once the row is placed cannot fail.** -/
theorem Landed.step (hc : Landed h t P Q c) : Landed h t P (c.step Q).1 (c.step Q).2 := by
  rcases hc.rest with ⟨f, hact, hcached⟩ | hact | hact
  · have hstep : c.step Q = (Q.setPage f ((Q.page f).markDirty c.txn), c.goOn (.installing [])) := by
      simp [Call.step, hact, Pool.install_of_resident hcached]
    rw [hstep]
    exact ⟨hc.placed, .inr (.inl rfl)⟩
  · have hstep : c.step Q = (Q, c.finish (.ok .done)) := by simp [Call.step, hact]
    rw [hstep]
    exact ⟨hc.placed, .inr (.inr rfl)⟩
  · have hstep : c.step Q = (Q, c) := by simp [Call.step, hact]
    rw [hstep]
    exact hc

/-! ## The whole insert -/

theorem Stage.refaulted {a : Activity} (ha : Stage h t P Q a) {disk : Disk}
    (hd : Q.storage.disk.Refaulted disk) :
    Stage h t P { Q with storage := { Q.storage with disk } } a := by
  have hpages : Tables.pages { Q.storage with disk } h.table = Q.storage.pages h.table :=
    Tables.pages_of_refaulted hd _
  have hcounted : ∀ {i}, Counted h P Q i → Counted h P { Q with storage := { Q.storage with disk } } i :=
    fun hi => ⟨hi.heap, hi.pages.trans hpages.symm, hi.past⟩
  have haimed : ∀ {p i}, Aimed h t P Q p i → Aimed h t P { Q with storage := { Q.storage with disk } } p i :=
    fun hi => ⟨hcounted hi.toCounted, hi.page, hi.lt, hi.heldBefore⟩
  cases a with
  | start r => exact ha
  | locking p m use =>
    cases use with
    | place i => exact ⟨ha.1, haimed ha.2.1, ha.2.2⟩
    | _ => exact ha
  | sleeping ticket p m use =>
    cases use with
    | place i => exact ⟨ha.1, haimed ha.2.1, ha.2.2⟩
    | _ => exact ha
  | fetching p use =>
    cases use with
    | place i => exact ⟨haimed ha.1, ha.2⟩
    | _ => exact ha
  | working p f use =>
    cases use with
    | place i => exact ⟨haimed ha.1, ha.2⟩
    | _ => exact ha
  | dropping i => exact ⟨hcounted ha.1, ha.2⟩
  | counting i => exact ha
  | growing i => exact ⟨hcounted ha.1, ha.2⟩
  | _ => exact ha

/-- An insert that is run on from its first section has not placed its row yet, or it has placed it, or it has
failed. -/
theorem Leads.of_insert {s₀ s : Solo} (hrun : Leads s₀ s) (hP : P.Filed)
    (hcat : P.storage.catalog[h.table]? = some (.heap h)) (h₀ : Probing h t row P s₀.pool s₀.call) :
    Probing h t row P s.pool s.call ∨ Landed h t P s.pool s.call ∨
      ∃ e, s.call.activity = .finished (.error e) := by
  induction hrun with
  | refl => exact .inl h₀
  | @step s _ ih =>
    rcases ih with hc | hc | ⟨e, he⟩
    · rcases hc.step hP hcat with hnext | hnext | hnext
      · exact .inl hnext
      · exact .inr (.inl hnext)
      · exact .inr (.inr hnext.result)
    · exact .inr (.inl hc.step)
    · refine .inr (.inr ⟨e, ?_⟩)
      have hstep : s.call.step s.pool = (s.pool, s.call) := by simp [Call.step, he]
      rw [Solo.step, hstep]
      exact he
  | refault _ hd ih =>
    rcases ih with hc | hc | hfailed
    · exact .inl ⟨hc.txn, hc.tuple, hc.installs, hc.probed.refaulted hP hd, hc.stage.refaulted hd⟩
    · exact .inr (.inl ⟨hc.placed, hc.rest⟩)
    · exact .inr (.inr hfailed)

end Stages

end Solo

end PageEngine
