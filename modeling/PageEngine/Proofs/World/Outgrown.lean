import PageEngine.Proofs.World.FirstFit
import PageEngine.Proofs.World.Replies

/-!
# `Proofs/World/Outgrown.lean` — a table that outgrows the numbers of its pages

An insert into a full table of as many pages as page numbers can count appends one page more, and only then finds
that the table has too many (`Solo.comesTo_outgrown`). From then on no page of the table can be read, and those
that are cached are still handed out. So

> **past the last page number the replies tell which pages are cached** (`World.draws_observed`),

and which ones that are is a matter of the choices of eviction. It takes no more than one row too many.
-/

set_option autoImplicit false

namespace PageEngine

open Std

namespace Solo

/-! ## One row too many -/

/-- `Q` is `P` after an insert of `t` into the full table of `h` has failed at the last page number, too late. -/
structure Outgrown (h : HeapFile) (t : TxnId) (P Q : Pool Tables) : Prop where
  appended : P.storage.Appended h Q.storage
  walked : P.Walked h t Q
  serves : Q.Serves h
  /-- The page that was appended is not cached, but the last one that there was before is. -/
  within : ∀ (p : PageId) (f : FrameId), Q.resident[p]? = some f → p.table = h.table →
    p.pageNo < P.storage.pages h.table
  last : ∀ j, P.storage.pages h.table = j + 1 → (Q.resident[(⟨h.table, j⟩ : PageId)]?).isSome

section Outgrown

variable {h : HeapFile} {P Q : Pool Tables} {c : Call} {ds : List PageData}

theorem comesTo_uncounted (hw : P.Walked h c.txn Q) (hQ : Q.Serves h) (hmax : maxPageNo < Q.storage.pages h.table)
    (i : Insertion) (hi : i.heap = h) (got : List (PageId × PageData)) :
    ComesTo ⟨Q, c.goOn (.counting i), got⟩ fun s =>
      Hindered h P c.txn s ∨ s = ⟨Q, c.fail .fileTooLarge, got⟩ := by
  subst hi
  refine .later (.here ?_)
  rw [Tables.pages_of_heap hQ.catalog] at hmax
  rcases HeapFile.numPages_of_many hQ.candid hmax with ⟨hblind, hnum⟩ | hnum
  · have hstep : step ⟨Q, c.goOn (.counting i), got⟩ = ⟨Q, c.fail diskUnavailable, got⟩ := by
      simp [step, Call.step, Call.goOn, hnum, Call.fail, Call.finish, Call.handed]
    rw [hstep]
    exact .inl (.failing (.inl (hw.blind hblind)) rfl)
  · refine .inr ?_
    simp [step, Call.step, Call.goOn, hnum, Call.fail, Call.finish, Call.handed]

/-- No row goes into a page that is full. -/
theorem not_firstFit_of_full {t : TxnId} {row : Bytes} {s : Solo} {d : PageData} {slot : Nat}
    (hfull : ∀ j d, j < P.storage.pages h.table → P.Shows ⟨h.table, j⟩ d → h.layout.freeSlot d = none)
    (hlt : ds.length < P.storage.pages h.table) : ¬FirstFit h P t row s ds d slot := by
  intro hfit
  have hshown := hfit.shown ds.length d (by simp) hlt
  have hused := SlotLayout.freeSlot_eq_none.1 (hfull _ d hlt hshown) slot hfit.first.lt
  rw [hfit.first.free] at hused
  cases hused

/-- The pages that are left are tried, and one more is appended. -/
theorem Searched.comesTo_outgrown (hP : P.Serves h) (hc : c.installs = true)
    (hrow : c.tuple.data.size = h.layout.width) (hpages : P.storage.pages h.table = maxPageNo)
    (hfull : ∀ j d, j < P.storage.pages h.table → P.Shows ⟨h.table, j⟩ d → h.layout.freeSlot d = none)
    (left : Nat) : ∀ (ds : List PageData) (Q : Pool Tables) (b : Bool),
    Searched h c.txn P ds Q → Q.storage = P.storage → ds.length + left = P.storage.pages h.table →
      (∀ j, ds.length = j + 1 → (Q.resident[(⟨h.table, j⟩ : PageId)]?).isSome) →
      (trying h c ds Q b).ComesTo fun s =>
        Hindered h P c.txn s ∨ (s.call.result? = some (.error .fileTooLarge) ∧ Outgrown h c.txn P s.pool) := by
  induction left with
  | zero =>
    intro ds Q b hs hsame hall hlast
    refine (hs.comesTo_appended hP hsame hall (Nat.le_of_eq hpages) b).trans fun s hcome => ?_
    rcases hcome with hhind | ⟨n, R, rfl, hsR, hnew, hresident⟩
    · exact .here (.inl hhind)
    have hmax : maxPageNo < R.storage.pages h.table := by
      rw [hnew.pages, hpages]
      exact Nat.lt_succ_self _
    refine (comesTo_uncounted hsR.walked hsR.serves hmax ⟨h, n, ds.length, b⟩ rfl _).mono fun s hcome => ?_
    refine hcome.imp_right fun heq => ?_
    subst heq
    refine ⟨rfl, hnew, hsR.walked, hsR.serves, fun p f hf ht => ?_, fun j hj => hresident ▸ hlast j (hall.trans hj)⟩
    exact hsame ▸ hs.serves.within p f (hresident ▸ hf) ht
  | succ left ih =>
    intro ds Q b hs hsame hleft hlast
    have hlt : ds.length < P.storage.pages h.table := by omega
    refine (hs.comesTo_next hP hc hrow (.inl ⟨hlt, hsame⟩) (by rw [hsame]; exact Nat.le_of_eq hpages) b).trans
      fun s hcome => ?_
    rcases hcome with hhind | ⟨d, slot, hfit⟩ | ⟨d, R, b', rfl, hsR, hsameR, -, hcached⟩
    · exact .here (.inl hhind)
    · exact absurd hfit (not_firstFit_of_full hfull hlt)
    · refine ih (ds ++ [d]) R b' hsR hsameR ?_ fun j hj => ?_
      · rw [List.length_append, List.length_singleton]
        omega
      · rw [List.length_append, List.length_singleton] at hj
        exact Nat.succ.inj hj ▸ hcached

/-- **One row too many.** At the last page number an insert alone into a full table appends a page and fails, or
it is hindered. -/
theorem comesTo_outgrown (hP : P.Serves h) (hpages : P.storage.pages h.table = maxPageNo)
    (hfull : ∀ j d, j < P.storage.pages h.table → P.Shows ⟨h.table, j⟩ d → h.layout.freeSlot d = none)
    (t : TxnId) {row : Tuple} (hrow : row.data.size = h.layout.width) :
    ComesTo { pool := P, call := .ofRequest t (.insert h.table row) } fun s =>
      Hindered h P t s ∨ (s.call.result? = some (.error .fileTooLarge) ∧ Outgrown h t P s.pool) := by
  refine (comesTo_first hP (Nat.le_of_eq hpages) t hrow).trans fun s hcome => ?_
  rcases hcome with hhind | ⟨c, rfl, htxn, htuple, hinstalls, hnone⟩
  · exact .here (.inl hhind)
  · subst htxn
    exact Searched.comesTo_outgrown hP hinstalls (htuple ▸ hrow) hpages hfull _ [] P false hnone rfl
      (Nat.zero_add _) nofun

end Outgrown

end Solo

namespace World

/-! ## A call alone in a world -/

section Alone

variable {w : World} {t : TxnId} {as bs : List Action}

theorem run_of_idle (hidle : w.tasks t = none) (n : Nat) : w.run (List.replicate n (.advance t)) = w := by
  induction n with
  | zero => rfl
  | succ n ih =>
    have hstay : w.act (.advance t) = w := by simp only [act, World.advance, hidle]
    exact (congrArg (fun v => v.run (List.replicate n (.advance t))) hstay).trans ih

/-- **A call that nobody comes in between runs as it does alone.** -/
theorem run_of_solo {k : Task} (hk : w.tasks t = some k) (hrule : k.rule = none) (hopen : k.call.result? = none)
    {got : List (PageId × PageData)} {n : Nat}
    (hdone : ((Solo.run ⟨w.pool, k.call, got⟩ n).call.result?).isSome) :
    (w.run (List.replicate n (.advance t))).pool = (Solo.run ⟨w.pool, k.call, got⟩ n).pool ∧
      (w.run (List.replicate n (.advance t))).tasks = Function.update w.tasks t none := by
  induction n generalizing w k got with
  | zero =>
    have hnone : (Solo.run ⟨w.pool, k.call, got⟩ 0).call.result? = none := hopen
    rw [hnone] at hdone
    cases hdone
  | succ n ih =>
    have hact : w.act (.advance t) = w.runSection t k := by simp only [act, World.advance, hk, hrule]
    have hrun : w.run (List.replicate (n + 1) (.advance t)) =
        (w.runSection t k).run (List.replicate n (.advance t)) :=
      congrArg (fun v => v.run (List.replicate n (.advance t))) hact
    have hsection := runSection_eq w t k
    rw [Solo.run] at hdone ⊢
    rw [hrun]
    cases hresult : (k.call.step w.pool).2.result? with
    | some r =>
      -- The call leaves, and nothing more happens.
      have htasks : (w.runSection t k).tasks = Function.update w.tasks t none := by
        rw [hsection]
        simp [Task.after, hresult]
      rw [run_of_idle (by rw [htasks, Function.update_self]), Solo.run_of_finished (Option.isSome_of_eq_some hresult)]
      exact ⟨rfl, htasks⟩
    | none =>
      have htasks : (w.runSection t k).tasks = Function.update w.tasks t
          (some ⟨(k.call.step w.pool).2, k.rule, k.nextDraft (k.call.step w.pool).1⟩) := by
        rw [hsection]
        simp [Task.after, hresult]
      obtain ⟨hpool, hend⟩ := ih (k := ⟨(k.call.step w.pool).2, k.rule, k.nextDraft (k.call.step w.pool).1⟩)
        (by rw [htasks, Function.update_self]) hrule hresult hdone
      refine ⟨hpool, hend.trans ?_⟩
      rw [htasks, Function.update_idem]

/-- A request of a transaction that has none in flight. -/
theorem run_of_request (hidle : w.tasks t = none) (r : Request) {n : Nat}
    (hdone : ((Solo.run { pool := w.pool, call := .ofRequest t r } n).call.result?).isSome) :
    (w.run (.request t r :: List.replicate n (.advance t))).pool =
        (Solo.run { pool := w.pool, call := .ofRequest t r } n).pool ∧
      (w.run (.request t r :: List.replicate n (.advance t))).tasks = w.tasks := by
  have htasks : (w.act (.request t r)).tasks t = some { call := .ofRequest t r } := by
    simp [act, setTask]
  obtain ⟨hpool, hend⟩ := run_of_solo htasks rfl (by cases r <;> rfl) hdone
  refine ⟨hpool, hend.trans ?_⟩
  simp [act, setTask, ← hidle]

end Alone

end World

/-! ## Two pages in a cache for two -/

namespace Draws

/-- The word by which the first of two is chosen. -/
def low : UInt64 := 0

/-- The least word by which the second of two is chosen. -/
def high : UInt64 := 9223372036854775808

theorem below_two_low {d : Draws} (h : d.word d.used = low) : (d.below 2).1 = 0 := by
  rw [below, skipLimit, choose, h, if_pos (by decide)]
  show low.toNat * 2 / UInt64.size = 0
  decide

theorem below_two_high {d : Draws} (h : d.word d.used = high) : (d.below 2).1 = 1 := by
  rw [below, skipLimit, choose, h, if_pos (by decide)]
  show high.toNat * 2 / UInt64.size = 1
  decide

end Draws

/-- A transaction that nobody is in the way of is granted a lock. -/
theorem LockTable.attempt_of_alone {L : LockTable} {p : PageId} {t : TxnId}
    (halone : ∀ u, u ≠ t → L.modeOf p u = none) (m : Mode) : ∃ L', L.attempt p t m = (L', .granted) := by
  rcases L.attempt_cases p t m with ⟨l, -, ha⟩ | ⟨href, -, -⟩ | ⟨href, -, -⟩
  · exact ⟨_, ha⟩
  all_goals
    obtain ⟨u, n, hu, hn, -⟩ := refuses_iff.1 href
    cases (halone u hu).symm.trans hn

namespace Pool

section Pair

variable {P : Pool Tables} {a b p : PageId}

/-- Of two cached pages the greater one is listed last. -/
theorem residentPages_pair (hsize : P.resident.size = 2) (hb : (P.resident[b]?).isSome)
    (hmost : ∀ q, (P.resident[q]?).isSome → q ≠ b → compare q b = .lt) :
    ∃ a, a ≠ b ∧ P.residentPages = [a, b] := by
  have hsorted : P.residentPages.Pairwise fun x y => compare x y = .lt := ExtTreeMap.ordered_keys
  have hnodup := P.nodup_residentPages
  have hmem : ∀ q, q ∈ P.residentPages ↔ (P.resident[q]?).isSome := fun q => mem_residentPages
  have hlen := P.length_residentPages.trans hsize
  obtain ⟨x, y, hxy⟩ := List.length_eq_two.1 hlen
  rw [hxy] at hsorted hnodup hmem
  have hne : x ≠ y := by simpa using hnodup
  rcases List.mem_pair.1 ((hmem b).2 hb) with rfl | rfl
  · have hlt : compare b y = .lt := by simpa using hsorted
    have hgt := hmost y ((hmem y).1 (by simp)) hne.symm
    have hswap : compare y b = (compare b y).swap := OrientedCmp.eq_swap
    rw [hswap, hlt] at hgt
    cases hgt
  · exact ⟨x, hne, hxy⟩

/-- **Which of two clean pages makes room for a third is up to the word that is drawn.** -/
theorem fetch_displaces (hP : P.Fits) (hfull : P.capacity = 2) (hpages : P.residentPages = [a, b])
    (hclean : ∀ (q : PageId) (f : FrameId), P.resident[q]? = some f → (P.page f).dirty = none)
    (hp : P.resident[p]? = none) {d : Page} (hread : P.storage.readPage p = .ok d) :
    ∃ Q f, P.fetch p = (Q, .ok f) ∧ Q.storage = P.storage ∧
      (P.draws.word P.draws.used = Draws.low → Q.resident = (P.resident.erase a).insert p f) ∧
      (P.draws.word P.draws.used = Draws.high → Q.resident = (P.resident.erase b).insert p f) := by
  have hin : Storage.readPage P.storage p = (P.storage, .ok d) := Prod.ext rfl hread
  have hsize : P.resident.size = 2 := by rw [← P.length_residentPages, hpages]; rfl
  have hevictable : ∀ q, q ∈ P.residentPages → P.evictable q = true := by
    intro q hq
    obtain ⟨f, hf⟩ := Option.isSome_iff_exists.1 (mem_residentPages.1 hq)
    exact evictable_iff.2 ⟨f, hf, hclean q f hf⟩
  rw [hpages] at hevictable
  have hvictim : (P.missed P.storage).victim =
      ([a, b].rotateLeft (P.draws.below 2).1).find? P.evictable := by
    show (P.residentPages.rotateLeft (P.draws.below P.residentPages.length).1).find? P.evictable = _
    rw [hpages]
    rfl
  rcases fetch_of_read_cases hP hp hin with ⟨hroom, -⟩ | ⟨-, q, hq, hfetch⟩ | ⟨hclog, -⟩
  · omega
  · rw [hvictim] at hq
    refine ⟨_, _, hfetch, ?_, fun hlow => ?_, fun hhigh => ?_⟩
    · simp only [cache, addFrame, evicted, tally, discard, drawn, missed]
    · rw [Draws.below_two_low hlow] at hq
      obtain rfl : a = q := by simpa [List.rotateLeft, hevictable] using hq
      rfl
    · rw [Draws.below_two_high hhigh] at hq
      obtain rfl : b = q := by simpa [List.rotateLeft, hevictable] using hq
      rfl
  · obtain ⟨f, hf, hclean'⟩ := evictable_iff.1 (hevictable a (by simp))
    exact absurd hclean' (hclog.dirty a f hf)

end Pair

end Pool

namespace World

/-! ## A client that gets a page -/

section Getting

variable {w : World} {t : TxnId} {p : PageId} {P : Pool Tables} {L : LockTable}

theorem reading_one (t : TxnId) (p : PageId) :
    reading t [p] = .request t (.get p .read) :: List.replicate 4 (.advance t) := by simp [reading]

theorem replies_get_ok {f : FrameId} (hgrant : w.pool.locks.attempt p t .shared = (L, .granted))
    (hfetch : (w.pool.withLocks L).fetch p = (P, .ok f)) :
    w.replies (reading t [p]) = [none, none, none, none, some ⟨.ok ((Answer.frame f).seen P), ⟨none, #[]⟩⟩] := by
  simp [reading_one, replies, reply, replyTo, act, setTask, advance, runSection, Call.ofRequest, Call.step, Call.start,
    Call.goOn, Call.attemptLock, Call.useFrame, Call.finish, Task.after, Call.told, Call.result?, Access.mode, hgrant,
    hfetch, Except.map]

theorem replies_get_error {e : Error} (hgrant : w.pool.locks.attempt p t .shared = (L, .granted))
    (hfetch : (w.pool.withLocks L).fetch p = (P, .error e)) :
    w.replies (reading t [p]) = [none, none, none, some ⟨.error e, ⟨none, #[]⟩⟩, none] := by
  simp [reading_one, replies, reply, replyTo, act, setTask, advance, runSection, Call.ofRequest, Call.step, Call.start,
    Call.goOn, Call.attemptLock, Call.fail, Call.finish, Task.after, Call.told, Call.result?, Access.mode, hgrant,
    hfetch, Except.map]

/-- A client alone gets a page of `h`, which comes in if it is not there. -/
theorem get_served {h : HeapFile} (hidle : w.tasks t = none) (halone : ∀ q u, u ≠ t → w.pool.locks.modeOf q u = none)
    (hP : w.pool.Serves h) (ht : p.table = h.table) (hp : p.pageNo < w.pool.storage.pages h.table)
    (hmax : w.pool.storage.pages h.table ≤ maxPageNo) (hread : ¬w.pool.storage.disk.Blind h.file)
    (hroom : ¬w.pool.Clogged) :
    (w.run (reading t [p])).tasks = w.tasks ∧ (w.run (reading t [p])).pool.Serves h ∧
      w.pool.Walked h t (w.run (reading t [p])).pool ∧ (w.run (reading t [p])).pool.storage = w.pool.storage ∧
      (w.pool.resident[p]? = none → w.pool.resident.size < w.pool.capacity →
        ∃ f, (w.run (reading t [p])).pool.resident = w.pool.resident.insert p f) := by
  obtain ⟨L, hgrant⟩ := LockTable.attempt_of_alone (halone p) .shared
  have hcons := hP.locks.attempt p t .shared
  have hmode := w.pool.locks.modeOf_attempt p t .shared
  rw [hgrant] at hcons hmode
  have hL := hP.withLocks hcons
  have hlock : w.pool.Walked h t (w.pool.withLocks L) :=
    Pool.walked_withLocks fun q u hu => by rw [hmode, if_neg fun hc => hu hc.2.2]
  rcases hfetch : (w.pool.withLocks L).fetch p with ⟨Q, e | f⟩
  · rcases hL.fetch_error ht hp hmax hfetch with ⟨hblind, -⟩ | ⟨hclog, -⟩
    · exact absurd hblind hread
    · exact absurd ⟨hclog.full, hclog.dirty⟩ hroom
  · obtain ⟨-, -, hstorage⟩ := Pool.browsed_fetch ht hfetch
    rw [reading_one, get_alone hidle hgrant hfetch]
    refine ⟨rfl, hL.fetch ht hfetch, hlock.trans hP.bounded.filed hL.bounded.filed (hL.walked_fetch ht hfetch),
      hstorage, fun hnone hless => ?_⟩
    rcases Tables.readPage_of_candid (ht ▸ hP.catalog) ht.symm hP.candid (ht ▸ hp) (ht ▸ hmax) with
      ⟨hblind, -⟩ | ⟨x, hx⟩
    · exact absurd hblind hread
    · have hin : Storage.readPage (w.pool.withLocks L).storage p = ((w.pool.withLocks L).storage, .ok x) :=
        Prod.ext rfl hx
      have hcomes := Pool.comesIn_of_read hL.fits hnone hin
      rw [hfetch] at hcomes
      exact ⟨_, hcomes.roomy hless⟩

end Getting

/-! ## A full table at the last page number -/

/-- A heap file beside the wide one. -/
def otherFile : HeapFile := ⟨⟨2⟩, { name := "u" }, Solo.wideFile.layout⟩

/-- A table with the given bytes, and another one of one page. -/
def twoTables (b : Bytes) : Tables :=
  Tables.register
    (Tables.register
      { disk := (Disk.put {} "t" { file := .memory { bytes := b } }).put "u"
          { file := .memory { bytes := Bytes.zeros pageSize } } }
      (.heap Solo.wideFile))
    (.heap otherFile)

/-- A pool over them that has room for two pages, and draws the same word all the time. -/
def twoPool (b : Bytes) (x : UInt64) : Pool Tables :=
  { capacity := 2, storage := twoTables b, draws := { word := fun _ => x } }

section Tables

variable (b : Bytes) (x : UInt64)

theorem twoPool_create : Pool.create 2 { word := fun _ => x } (twoTables b) = .ok (twoPool b x) := rfl

theorem twoTables_wide : (twoTables b).catalog[Solo.wideFile.table]? = some (.heap Solo.wideFile) := by
  rw [twoTables, Tables.catalog_register, Tables.catalog_register]
  rfl

theorem twoTables_other : (twoTables b).catalog[otherFile.table]? = some (.heap otherFile) := by
  rw [twoTables, Tables.catalog_register]
  rfl

theorem twoTables_sound : (twoTables b).Sound := by
  refine Tables.Sound.register (Tables.Sound.register ⟨?_, ?_, ?_⟩ ⟨?_, ?_, ?_⟩) ⟨?_, ?_, fun t s hs => ?_⟩
  case refine_9 =>
    rw [Tables.catalog_register] at hs
    split at hs
    · obtain rfl := Option.some.inj hs
      simp [Solo.wideFile, otherFile, Store.file]
    · simp at hs
  all_goals simp [Solo.wideFile, otherFile, Disk.Faultless, Disk.file_put, Tables.register, Store.table, Store.file]

theorem twoTables_bytesOf : (twoTables b).bytesOf Solo.wideFile.table = b := by
  rw [Tables.bytesOf_of_heap (twoTables_wide b)]
  simp [twoTables, Tables.register, Solo.wideFile, Disk.bytes, Disk.file_put, File.bytes]

theorem twoTables_otherPages : (twoTables b).pages otherFile.table = 1 := by
  rw [Tables.pages, Tables.bytesOf_of_heap (twoTables_other b)]
  simp [twoTables, Tables.register, otherFile, Disk.bytes, Disk.file_put, File.bytes, pageSize]

end Tables

/-- The first transaction has no call in flight, and has read so many pages of the full table. -/
structure Filled (b : Bytes) (x : UInt64) (n : Nat) (w : World) : Prop where
  idle : w.tasks ⟨1⟩ = none
  inv : w.Inv (twoTables b).contents
  serves : w.pool.Serves Solo.wideFile
  walked : (twoPool b x).Walked Solo.wideFile ⟨1⟩ w.pool
  storage : w.pool.storage = twoTables b
  size : w.pool.resident.size = n

section Filled

variable {b : Bytes} {x : UInt64} {n : Nat} {w : World} {p : PageId}

theorem twoTables_readable (b : Bytes) :
    ¬(twoTables b).disk.Blind Solo.wideFile.file ∧ ¬(twoTables b).disk.Frozen Solo.wideFile.file ∧
      (twoTables b).disk.Candid Solo.wideFile.file := by
  have hfaults := Disk.faults_of_faultless (r := Solo.wideFile.file)
    ((twoTables_sound b).faultless _ _ (twoTables_wide b))
  rw [Disk.Blind, Disk.Frozen, Disk.Candid, hfaults]
  simp

theorem twoPool_serves (b : Bytes) (x : UInt64) : (twoPool b x).Serves Solo.wideFile :=
  Hosts.start.serves (twoPool_create b x) (fun _ hs => (Option.some.inj ((twoTables_wide b).symm.trans hs)).symm)
    (twoTables_sound b).keyed (twoTables_wide b) (twoTables_readable b).2.2

/-- A cache for two into which pages of the full table have come has room. -/
theorem unclogged_of_walked {P : Pool Tables} (hw : (twoPool b x).Walked Solo.wideFile ⟨1⟩ P)
    (hP : P.Serves Solo.wideFile) : ¬P.Clogged := fun hclog =>
  absurd (hw.clogged (twoPool_serves b x) hP hclog).full (by simp [twoPool])

theorem alone_of_walked {P : Pool Tables} (hw : (twoPool b x).Walked Solo.wideFile ⟨1⟩ P) (p : PageId) (u : TxnId)
    (hu : u ≠ ⟨1⟩) : P.locks.modeOf p u = none :=
  (hw.others p u hu).trans (LockTable.modeOf_empty p u)

theorem lawful_reading_one {t : TxnId} (hidle : w.tasks t = none) (p : PageId) : w.Lawful (reading t [p]) := by
  rw [reading_one]
  exact ⟨hidle, trivial, lawful_advances 4⟩

theorem filled_start (b : Bytes) (x : UInt64) : Filled b x 0 (start (twoPool b x)) where
  idle := rfl
  inv := inv_start (twoPool_create b x) (twoTables_sound b)
  serves := twoPool_serves b x
  walked := .refl _ _ _
  storage := rfl
  size := by simp [start, twoPool]

/-- One more page is read, and takes the room that is left. -/
theorem Filled.read (hw : Filled b x n w) (hn : n < 2) (hpages : (twoTables b).pages Solo.wideFile.table = maxPageNo)
    (ht : p.table = Solo.wideFile.table) (hp : p.pageNo < maxPageNo) (hnone : w.pool.resident[p]? = none) :
    w.Lawful (reading ⟨1⟩ [p]) ∧ Filled b x (n + 1) (w.run (reading ⟨1⟩ [p])) ∧
      ∃ f, (w.run (reading ⟨1⟩ [p])).pool.resident = w.pool.resident.insert p f := by
  have hlawful := lawful_reading_one hw.idle p
  have hpages' : w.pool.storage.pages Solo.wideFile.table = maxPageNo := by rw [hw.storage, hpages]
  obtain ⟨htasks, hserves, hwalked, hstorage, hcomes⟩ :=
    get_served hw.idle (alone_of_walked hw.walked) hw.serves ht (hpages' ▸ hp) (Nat.le_of_eq hpages')
      (by rw [hw.storage]; exact (twoTables_readable b).1) (unclogged_of_walked hw.walked hw.serves)
  obtain ⟨f, hf⟩ := hcomes hnone (by rw [hw.size, hw.walked.capacity]; exact hn)
  have hnew : p ∉ w.pool.resident := by
    rw [← ExtTreeMap.isSome_getElem?_iff_mem, hnone]
    exact Bool.false_ne_true
  refine ⟨hlawful, ⟨(congrFun htasks ⟨1⟩).trans hw.idle, inv_run hw.inv hlawful, hserves, ?_, ?_, ?_⟩, f, hf⟩
  · exact hw.walked.trans (twoPool_serves b x).bounded.filed hw.serves.bounded.filed hwalked
  · rw [hstorage, hw.storage]
  · rw [hf, ExtTreeMap.size_insert, if_neg (mt ExtTreeMap.contains_iff_mem.1 hnew), hw.size]

/-- It reads two pages. -/
def filling : List Action := reading ⟨1⟩ [⟨⟨1⟩, 0⟩] ++ reading ⟨1⟩ [⟨⟨1⟩, 1⟩]

theorem filled_of_reads (hpages : (twoTables b).pages Solo.wideFile.table = maxPageNo) :
    (start (twoPool b x)).Lawful filling ∧ Filled b x 2 ((start (twoPool b x)).run filling) := by
  obtain ⟨hfirst, hw, f, hf⟩ := (filled_start b x).read (p := ⟨⟨1⟩, 0⟩) (by decide) hpages rfl (by decide)
    (by simp [start, twoPool])
  obtain ⟨hsecond, hw', -⟩ := hw.read (p := ⟨⟨1⟩, 1⟩) (by decide) hpages rfl (by decide)
    (by rw [hf]; simp [start, twoPool])
  rw [filling, lawful_append, run_append]
  exact ⟨⟨hfirst, hsecond⟩, hw'⟩

end Filled

/-- The transaction inserts a row too many. -/
def overfilling (n : Nat) : List Action :=
  .request ⟨1⟩ (.insert Solo.wideFile.table Solo.wideRow) :: List.replicate n (.advance ⟨1⟩)

/-- The last page that the full table had. -/
def lastPage : PageId := ⟨⟨1⟩, maxPageNo - 1⟩

/-- Nobody is about, the table has outgrown its page numbers, and two of its pages are cached, among them the last
one that it had. -/
structure Crammed (x : UInt64) (w : World) : Prop where
  idle : w.tasks ⟨1⟩ = none
  alone : ∀ p u, u ≠ ⟨1⟩ → w.pool.locks.modeOf p u = none
  sound : w.pool.storage.Sound
  pages : w.pool.storage.pages Solo.wideFile.table = maxPageNo + 1
  other : w.pool.storage.pages otherFile.table = 1
  capacity : w.pool.capacity = 2
  size : w.pool.resident.size = 2
  words : w.pool.draws.word = fun _ => x
  clean : ∀ (p : PageId) (f : FrameId), w.pool.resident[p]? = some f → (w.pool.page f).dirty = none
  within : ∀ (p : PageId) (f : FrameId), w.pool.resident[p]? = some f → p.table = ⟨1⟩ ∧ p.pageNo < maxPageNo
  last : (w.pool.resident[lastPage]?).isSome

section Filled

variable {b : Bytes} {x : UInt64} {w v : World}

/-- The table is full, so the insert is one too many. Nobody and nothing hinders it. -/
theorem Filled.comesTo_outgrown (hw : Filled b x 2 w) (hpages : (twoTables b).pages Solo.wideFile.table = maxPageNo)
    (hfull : ∀ j < maxPageNo,
      Solo.wideFile.layout.freeSlot ((twoTables b).contents ⟨Solo.wideFile.table, j⟩) = none) :
    Solo.ComesTo { pool := w.pool, call := .ofRequest ⟨1⟩ (.insert Solo.wideFile.table Solo.wideRow) } fun s =>
      s.call.result? = some (.error .fileTooLarge) ∧ Solo.Outgrown Solo.wideFile ⟨1⟩ w.pool s.pool := by
  obtain ⟨hread, hwrite, -⟩ := twoTables_readable b
  have hpages' : w.pool.storage.pages Solo.wideFile.table = maxPageNo := by rw [hw.storage, hpages]
  have hfull' : ∀ j d, j < w.pool.storage.pages Solo.wideFile.table →
      w.pool.Shows ⟨Solo.wideFile.table, j⟩ d → Solo.wideFile.layout.freeSlot d = none := by
    intro j d hj hd
    rw [hw.walked.browsed.shows_contents (fun q => by simp [twoPool]) hw.storage hd]
    exact hfull j (hpages' ▸ hj)
  have hrow : Solo.wideRow.data.size = Solo.wideFile.layout.width := by simp [Solo.wideRow, Solo.wideFile]
  refine (Solo.comesTo_outgrown hw.serves hpages' hfull' ⟨1⟩ hrow).mono fun s hs => hs.resolve_left ?_
  exact Solo.not_hindered (alone_of_walked hw.walked) (by rwa [hw.storage]) (by rwa [hw.storage])
    (unclogged_of_walked hw.walked hw.serves)

/-- What an insert too many leaves. -/
theorem Filled.crammed_of_outgrown (hw : Filled b x 2 w) (hpages : (twoTables b).pages Solo.wideFile.table = maxPageNo)
    (hout : Solo.Outgrown Solo.wideFile ⟨1⟩ w.pool v.pool) (hv : v.Inv (twoTables b).contents)
    (hidle : v.tasks ⟨1⟩ = none) : Crammed x v := by
  have hwalked := hw.walked.trans (twoPool_serves b x).bounded.filed hw.serves.bounded.filed hout.walked
  have hpages' : w.pool.storage.pages Solo.wideFile.table = maxPageNo := by rw [hw.storage, hpages]
  have hcapacity : v.pool.capacity = 2 := hwalked.capacity
  have hentered : ∀ (p : PageId) (f : FrameId), v.pool.resident[p]? = some f → p.table = ⟨1⟩ ∧
      (v.pool.page f).dirty = none := by
    intro p f hf
    rcases hwalked.browsed.entered p f hf with hold | ⟨-, ht, -, hpage⟩
    · simp [twoPool] at hold
    · exact ⟨ht, by rw [hpage]; rfl⟩
  exact {
    idle := hidle
    alone := alone_of_walked hwalked
    sound := hv.pool.sound
    pages := by rw [hout.appended.pages, hpages']
    other := by
      rw [hout.appended.pages_other (x := otherFile) (by rw [hw.storage]; exact twoTables_other b)
        (by simp [otherFile, Solo.wideFile]), hw.storage, twoTables_otherPages]
    capacity := hcapacity
    size := Nat.le_antisymm (hcapacity ▸ hout.serves.bounded.size) (hw.size ▸ hout.walked.size)
    words := hwalked.words
    clean := fun p f hf => (hentered p f hf).2
    within := fun p f hf => ⟨(hentered p f hf).1, hpages' ▸ hout.within p f hf (hentered p f hf).1⟩
    last := hout.last (maxPageNo - 1) (hpages'.trans rfl) }

/-- **One row too many crams the cache**, whatever word is drawn. -/
theorem Filled.crammed (hw : Filled b x 2 w) (hpages : (twoTables b).pages Solo.wideFile.table = maxPageNo)
    (hfull : ∀ j < maxPageNo,
      Solo.wideFile.layout.freeSlot ((twoTables b).contents ⟨Solo.wideFile.table, j⟩) = none) :
    ∃ N, ∀ n, N ≤ n → w.Lawful (overfilling n) ∧ Crammed x (w.run (overfilling n)) := by
  obtain ⟨N, hN⟩ := (hw.comesTo_outgrown hpages hfull).stays fun s hs => Option.isSome_of_eq_some hs.1
  refine ⟨N, fun n hn => ?_⟩
  have hlawful : w.Lawful (overfilling n) := ⟨hw.idle, trivial, lawful_advances n⟩
  obtain ⟨hfailed, hout⟩ := hN n hn
  obtain ⟨hpool, htasks⟩ := run_of_request hw.idle _ (Option.isSome_of_eq_some hfailed)
  rw [← hpool] at hout
  exact ⟨hlawful, hw.crammed_of_outgrown hpages hout (inv_run hw.inv hlawful)
    ((congrFun htasks ⟨1⟩).trans hw.idle)⟩

end Filled

section Crammed

variable {x : UInt64} {w : World}

/-- The page of the other table. -/
def otherPage : PageId := ⟨⟨2⟩, 0⟩

/-- It reads that page, and then asks for the last one of the full table. -/
def asking : List Action := reading ⟨1⟩ [otherPage] ++ reading ⟨1⟩ [lastPage]

/-- The last page comes last in the cache. -/
theorem Crammed.lt_lastPage (hw : Crammed x w) {q : PageId} (hq : (w.pool.resident[q]?).isSome)
    (hne : q ≠ lastPage) : compare q lastPage = .lt := by
  obtain ⟨f, hf⟩ := Option.isSome_iff_exists.1 hq
  obtain ⟨ht, hno⟩ := hw.within q f hf
  obtain ⟨table, no⟩ := q
  obtain rfl : table = ⟨1⟩ := ht
  have hnot : no ≠ maxPageNo - 1 := fun h => hne (by rw [h]; rfl)
  have hless : no < maxPageNo - 1 := by
    change no < maxPageNo at hno
    omega
  show compareLex (compareOn PageId.table) (compareOn PageId.pageNo) _ _ = .lt
  simp [compareLex, compareOn, lastPage, Nat.compare_eq_lt.2 hless]

/-- A page of the other table comes in for one of the two: the word decides which. -/
theorem Crammed.displaced (hw : Crammed x w) :
    (w.run (reading ⟨1⟩ [otherPage])).tasks = w.tasks ∧
      (w.run (reading ⟨1⟩ [otherPage])).pool.storage = w.pool.storage ∧
      (∀ p u, u ≠ ⟨1⟩ → (w.run (reading ⟨1⟩ [otherPage])).pool.locks.modeOf p u = none) ∧
      (x = Draws.low → ((w.run (reading ⟨1⟩ [otherPage])).pool.resident[lastPage]?).isSome) ∧
      (x = Draws.high → (w.run (reading ⟨1⟩ [otherPage])).pool.resident[lastPage]? = none) := by
  obtain ⟨L, hgrant⟩ := LockTable.attempt_of_alone (hw.alone otherPage) .shared
  have hmode := w.pool.locks.modeOf_attempt otherPage ⟨1⟩ .shared
  rw [hgrant] at hmode
  obtain ⟨a, hne, hpages⟩ := Pool.residentPages_pair (P := w.pool.withLocks L) hw.size hw.last
    fun q hq hq' => hw.lt_lastPage hq hq'
  have hfits : (w.pool.withLocks L).Fits :=
    ⟨hw.capacity ▸ Nat.succ_pos 1, Nat.le_of_eq (hw.size.trans hw.capacity.symm)⟩
  have habsent : w.pool.resident[otherPage]? = none := by
    by_contra hnone
    obtain ⟨f, hf⟩ := Option.ne_none_iff_exists'.1 hnone
    exact absurd (hw.within _ f hf).1 (by decide)
  have hread : w.pool.storage.readPage otherPage = .ok (Page.ofData otherPage (w.pool.storage.contents otherPage)) :=
    Tables.readPage_eq hw.sound (hw.other.symm ▸ Nat.succ_pos 0) (hw.other.symm ▸ Nat.succ_le_succ (Nat.zero_le _))
  obtain ⟨Q, f, hfetch, hstorage, hlow, hhigh⟩ := Pool.fetch_displaces hfits hw.capacity hpages hw.clean habsent hread
  have hlocks := (w.pool.withLocks L).locks_fetch otherPage
  rw [hfetch] at hlocks
  rw [reading_one, get_alone hw.idle hgrant hfetch]
  have hword : w.pool.draws.word w.pool.draws.used = x := by rw [hw.words]
  have hfresh : otherPage ≠ lastPage := by decide
  refine ⟨rfl, hstorage, fun p u hu => ?_, fun hx => ?_, fun hx => ?_⟩
  · show Q.locks.modeOf p u = none
    rw [hlocks]
    show L.modeOf p u = none
    rw [hmode, if_neg fun hc => hu hc.2.2]
    exact hw.alone p u hu
  · have hkept : Q.resident[lastPage]? = w.pool.resident[lastPage]? := by
      rw [hlow (hword.trans hx)]
      simp [ExtTreeMap.getElem?_insert, ExtTreeMap.getElem?_erase, hfresh, hne, Pool.withLocks]
    exact hkept ▸ hw.last
  · rw [hhigh (hword.trans hx)]
    simp [hfresh]

/-- The last page is had in the end, if the first word is drawn, and if the other one is, it cannot be read. -/
theorem Crammed.replies (hw : Crammed x w) : w.Lawful asking ∧
    (x = Draws.low → ∃ rs r, w.replies asking = rs ++ [none, none, none, none, some r]) ∧
    (x = Draws.high → ∃ rs r, w.replies asking = rs ++ [none, none, none, some r, none]) := by
  obtain ⟨htasks, hstorage, halone, hlow, hhigh⟩ := hw.displaced
  have hfirst := lawful_reading_one hw.idle otherPage
  rw [asking, lawful_append, replies_append]
  generalize w.run (reading ⟨1⟩ [otherPage]) = v at *
  have hidle : v.tasks ⟨1⟩ = none := (congrFun htasks ⟨1⟩).trans hw.idle
  obtain ⟨L, hgrant⟩ := LockTable.attempt_of_alone (halone lastPage) .shared
  refine ⟨⟨hfirst, lawful_reading_one hidle lastPage⟩, fun hx => ?_, fun hx => ?_⟩
  · obtain ⟨f, hf⟩ := Option.isSome_iff_exists.1 (hlow hx)
    have hfetch := Pool.fetch_of_resident (P := v.pool.withLocks L) hf
    exact ⟨_, _, by rw [replies_get_ok hgrant hfetch]⟩
  · have hread : v.pool.storage.readPage lastPage = .error .fileTooLarge := by
      rw [hstorage]
      exact Tables.readPage_of_many hw.sound (Nat.le_of_eq hw.pages.symm)
    have hmiss : Storage.readPage (v.pool.withLocks L).storage lastPage =
        ((v.pool.withLocks L).storage, .error .fileTooLarge) := Prod.ext rfl hread
    have hfetch := Pool.fetch_of_unread (P := v.pool.withLocks L) (hhigh hx) hmiss
    exact ⟨_, _, by rw [replies_get_error hgrant hfetch]⟩

end Crammed

/-- Pages of which every slot is used. -/
def usedPages (n : Nat) : Bytes := Array.replicate (n * pageSize) 1

theorem twoTables_usedPages (n : Nat) : (twoTables (usedPages n)).pages Solo.wideFile.table = n := by
  rw [Tables.pages, twoTables_bytesOf, usedPages, Array.size_replicate]
  exact Nat.mul_div_cancel n (by decide)

theorem freeSlot_usedPages {n j : Nat} (hj : j < n) :
    Solo.wideFile.layout.freeSlot ((twoTables (usedPages n)).contents ⟨Solo.wideFile.table, j⟩) = none := by
  refine SlotLayout.freeSlot_eq_none.2 fun i hi => ?_
  obtain rfl : i = 0 := Nat.lt_one_iff.1 hi
  have hin : j * pageSize < n * pageSize := Nat.mul_lt_mul_of_pos_right hj (by decide)
  have hbyte : ((twoTables (usedPages n)).contents ⟨Solo.wideFile.table, j⟩).byte 0 = 1 := by
    rw [Tables.contents, twoTables_bytesOf, PageData.byte_ofBytes, if_pos (by decide)]
    simp [usedPages, Bytes.byte, PageId.offset, hin]
  rw [SlotLayout.isUsed, hbyte]
  decide

/-- The whole run tells the two words apart. -/
theorem replies_telling (x : UInt64) : ∃ N, ∀ n, N ≤ n →
    (start (twoPool (usedPages maxPageNo) x)).Lawful (filling ++ (overfilling n ++ asking)) ∧
      (x = Draws.low → ∃ rs r, (start (twoPool (usedPages maxPageNo) x)).replies
        (filling ++ (overfilling n ++ asking)) = rs ++ [none, none, none, none, some r]) ∧
      (x = Draws.high → ∃ rs r, (start (twoPool (usedPages maxPageNo) x)).replies
        (filling ++ (overfilling n ++ asking)) = rs ++ [none, none, none, some r, none]) := by
  have hpages := twoTables_usedPages maxPageNo
  obtain ⟨hfill, hfilled⟩ := filled_of_reads (x := x) hpages
  obtain ⟨N, hN⟩ := hfilled.crammed hpages fun j hj => freeSlot_usedPages hj
  refine ⟨N, fun n hn => ?_⟩
  obtain ⟨hover, hcrammed⟩ := hN n hn
  obtain ⟨hask, hlow, hhigh⟩ := hcrammed.replies
  rw [lawful_append, lawful_append, replies_append, replies_append]
  refine ⟨⟨hfill, hover, hask⟩, fun hx => ?_, fun hx => ?_⟩
  · obtain ⟨rs, r, hr⟩ := hlow hx
    exact ⟨_, r, by rw [hr, ← List.append_assoc, ← List.append_assoc]⟩
  · obtain ⟨rs, r, hr⟩ := hhigh hx
    exact ⟨_, r, by rw [hr, ← List.append_assoc, ← List.append_assoc]⟩

/-- **Past the last page number the choices of eviction are observed**, though no call on a file fails. -/
theorem draws_observed : ∃ as : List Action,
    (twoTables (usedPages maxPageNo)).Sound ∧
    Pool.create 2 { word := fun _ => Draws.low } (twoTables (usedPages maxPageNo)) =
      .ok (twoPool (usedPages maxPageNo) Draws.low) ∧
    Pool.create 2 { word := fun _ => Draws.high } (twoTables (usedPages maxPageNo)) =
      .ok (twoPool (usedPages maxPageNo) Draws.high) ∧
    (start (twoPool (usedPages maxPageNo) Draws.low)).Lawful as ∧
    (start (twoPool (usedPages maxPageNo) Draws.high)).Lawful as ∧
    (start (twoPool (usedPages maxPageNo) Draws.high)).replies as ≠
      (start (twoPool (usedPages maxPageNo) Draws.low)).replies as := by
  obtain ⟨N, hN⟩ := replies_telling Draws.low
  obtain ⟨M, hM⟩ := replies_telling Draws.high
  obtain ⟨hlawful, hlow, -⟩ := hN (max N M) (Nat.le_max_left N M)
  obtain ⟨hlawful', -, hhigh⟩ := hM (max N M) (Nat.le_max_right N M)
  obtain ⟨rs, r, hr⟩ := hlow rfl
  obtain ⟨rs', r', hr'⟩ := hhigh rfl
  refine ⟨filling ++ (overfilling (max N M) ++ asking), twoTables_sound _, twoPool_create _ _, twoPool_create _ _,
    hlawful, hlawful', fun heq => ?_⟩
  have htail := List.append_inj_right' (hr'.symm.trans (heq.trans hr)) rfl
  cases htail

end World

end PageEngine
