import PageEngine.Proofs.Pool.Bounds

/-!
# `Proofs/Pool/Fetching.lean` — what it takes to hand out a page

A page that is asked for is locked first and fetched then. The fetch reads before it makes room, so a page
that cannot be read costs nobody a place:

> **a page leaves the cache for another one only if that one comes in**, it is clean, and it is the only one
> that leaves.

Which clean page goes is a matter of the choices drawn; that one can go is not (`Pool.Clogged`). All this
depends on nothing but the bound on the cache (`Pool.Fits`), which every operation keeps over any storage,
also over one that reads other pages than it is asked for.
-/

set_option autoImplicit false

namespace PageEngine

open Std

namespace Pool

section Fetching

variable {δ : Type} {P P₀ Q : Pool δ}

/-- The cache may hold a page, and is not fuller than it may be. -/
structure Fits (P : Pool δ) : Prop where
  capacity : 0 < P.capacity
  size : P.resident.size ≤ P.capacity

/-- The same images are cached for the same pages, and no image has changed. -/
structure Untouched (P P' : Pool δ) : Prop where
  resident : P'.resident = P.resident
  frames : P'.frames = P.frames

theorem fits_create {capacity : Nat} {draws : Draws} {s : δ} (h : create capacity draws s = .ok P) :
    P.Fits := by
  obtain ⟨hpos, hbounded⟩ := bounded_create h
  exact ⟨hbounded.capacity ▸ hpos, hbounded.capacity ▸ hbounded.size⟩

theorem Effect.fits {o : CacheOp δ} (h : Effect o P Q) (hP : P.Fits) : Q.Fits :=
  ⟨h.capacity ▸ hP.capacity, h.capacity ▸ h.size⟩

variable [Storage δ]

/-! ## A page that is not cached -/

/-- A page that was read comes in where there is room or a clean page can go, and else nothing is touched. -/
theorem fetch_of_read_cases (hP : P.Fits) {p : PageId} {s : δ} {x : Page} (hp : P.resident[p]? = none)
    (hr : Storage.readPage P.storage p = (s, .ok x)) :
    (P.resident.size < P.capacity ∧
      P.fetch p = (((P.missed s).addFrame x).cache p P.nextFrame, .ok P.nextFrame)) ∨
    (P.capacity ≤ P.resident.size ∧ ∃ q, (P.missed s).victim = some q ∧
      P.fetch p = ((((P.missed s).evicted q).addFrame x).cache p P.nextFrame, .ok P.nextFrame)) ∨
    (P.Clogged ∧ P.fetch p = ((P.missed s).drawn, .error .everyPageDirty)) := by
  have hfetch := fetch_of_read hp hr
  by_cases hroom : P.resident.size < P.capacity
  · have hmake : (P.missed s).makeRoom = (P.missed s, .ok ()) := makeRoom_of_lt hroom
    rw [hmake] at hfetch
    exact .inl ⟨hroom, hfetch⟩
  · rcases makeRoom_cases (P := P.missed s) hP.capacity hP.size with ⟨hlt, -⟩ | ⟨q, hq, hmake⟩ | ⟨hclog, hmake⟩
    · exact absurd hlt hroom
    · rw [hmake] at hfetch
      exact .inr (.inl ⟨Nat.le_of_not_lt hroom, q, hq, hfetch⟩)
    · rw [hmake] at hfetch
      exact .inr (.inr ⟨⟨hclog.full, hclog.dirty⟩, hfetch⟩)

theorem fits_fetch (hP : P.Fits) (p : PageId) : (P.fetch p).1.Fits := by
  cases hp : P.resident[p]? with
  | some f =>
    rw [fetch_of_resident hp]
    exact ⟨hP.capacity, hP.size⟩
  | none =>
    rcases hr : Storage.readPage P.storage p with ⟨s, e | x⟩
    · rw [fetch_of_unread hp hr]
      exact ⟨hP.capacity, hP.size⟩
    · rcases fetch_of_read_cases hP hp hr with ⟨hroom, hfetch⟩ | ⟨-, q, hq, hfetch⟩ | ⟨-, hfetch⟩
      · rw [hfetch]
        exact ⟨hP.capacity, size_cache_of_lt (R := (P.missed s).addFrame x) hroom p _⟩
      · have hone : ((P.missed s).evicted q).resident.size + 1 = P.resident.size := size_evicted hq
        have hless : ((P.missed s).evicted q).resident.size < P.capacity :=
          Nat.lt_of_lt_of_le (Nat.lt_of_succ_le (Nat.le_of_eq hone)) hP.size
        rw [hfetch]
        exact ⟨hP.capacity, size_cache_of_lt (R := ((P.missed s).evicted q).addFrame x) hless p _⟩
      · rw [hfetch]
        exact ⟨hP.capacity, hP.size⟩

theorem Fits.run {o : CacheOp δ} (hP : P.Fits) (ho : o.Allowed P) : (o.run P).Fits := by
  by_cases hfetch : ∃ p, o = .fetch p
  · obtain ⟨p, rfl⟩ := hfetch
    exact fits_fetch hP p
  · exact (effect_of_unread hP.capacity hP.size ho fun p hp => hfetch ⟨p, hp⟩).fits hP

/-- A page that comes in takes one place more, up to the bound. -/
theorem size_of_fetched (hP : P.Fits) {p : PageId} {f : FrameId} (hp : P.resident[p]? = none)
    (hfetch : P.fetch p = (Q, .ok f)) : Q.resident.size = min P.capacity (P.resident.size + 1) := by
  have habsent : p ∉ P.resident := by
    rw [← ExtTreeMap.isSome_getElem?_iff_mem, hp]
    exact nofun
  rcases hr : Storage.readPage P.storage p with ⟨s, e | x⟩
  · rw [fetch_of_unread hp hr] at hfetch
    cases hfetch
  · rcases fetch_of_read_cases hP hp hr with ⟨hroom, hcase⟩ | ⟨hfull, q, hq, hcase⟩ | ⟨-, hcase⟩
    · obtain rfl := congrArg Prod.fst (hcase.symm.trans hfetch)
      show (P.resident.insert p P.nextFrame).size = _
      rw [ExtTreeMap.size_insert, if_neg fun hmem => habsent (ExtTreeMap.contains_iff_mem.1 hmem)]
      exact (Nat.min_eq_right hroom).symm
    · obtain rfl := congrArg Prod.fst (hcase.symm.trans hfetch)
      have hone : (P.resident.erase q).size + 1 = P.resident.size := size_evicted (P := P.missed s) hq
      have hsize := hP.size
      show ((P.resident.erase q).insert p P.nextFrame).size = _
      rw [ExtTreeMap.size_insert, if_neg fun hmem =>
        habsent (ExtTreeMap.mem_of_mem_erase (ExtTreeMap.contains_iff_mem.1 hmem))]
      omega
    · cases hcase.symm.trans hfetch

theorem size_le_fetched (hP : P.Fits) {p : PageId} {f : FrameId} (hfetch : P.fetch p = (Q, .ok f)) :
    P.resident.size ≤ Q.resident.size := by
  cases hp : P.resident[p]? with
  | some g =>
    rw [fetch_of_resident hp] at hfetch
    obtain rfl := congrArg Prod.fst hfetch
    exact Nat.le_refl _
  | none =>
    rw [size_of_fetched hP hp hfetch]
    exact Nat.le_min.2 ⟨hP.size, Nat.le_succ _⟩

/-- Choices are drawn from the words that they were drawn from. -/
theorem words_fetch (hP : P.Fits) (p : PageId) : (P.fetch p).1.draws.word = P.draws.word := by
  have hdrawn : ∀ s, (P.missed s).drawn.draws.word = P.draws.word := fun s => Draws.below_word _ _
  cases hp : P.resident[p]? with
  | some f => rw [fetch_of_resident hp]; rfl
  | none =>
    rcases hr : Storage.readPage P.storage p with ⟨s, e | x⟩
    · rw [fetch_of_unread hp hr]
      rfl
    · rcases fetch_of_read_cases hP hp hr with ⟨-, hcase⟩ | ⟨-, q, -, hcase⟩ | ⟨-, hcase⟩
      · rw [hcase]
        rfl
      · rw [hcase]
        exact hdrawn s
      · rw [hcase]
        exact hdrawn s

/-- **Every operation keeps the bound**, over any storage. -/
theorem Reaches.fits (h : P.Reaches Q) (hP : P.Fits) : Q.Fits := by
  induction h with
  | refl => exact hP
  | step _ ho ih => exact ih.run ho

/-! ## The whole fetch -/

/-- What becomes of a page that was read, exactly. -/
structure ComesIn (P : Pool δ) (p : PageId) (x : Page) (r : Pool δ × Except Error FrameId) : Prop where
  /-- It fails to come in exactly when every place is taken by a dirty page, -/
  fails : ∀ e, r.2 = .error e ↔ P.Clogged ∧ e = .everyPageDirty
  /-- and then nothing is touched. -/
  clogged : P.Clogged → Untouched P r.1
  /-- Otherwise it is a new image, and the old ones are left alone. -/
  fetched : ¬P.Clogged → r.2 = .ok P.nextFrame ∧ r.1.frames = P.frames.push x
  /-- Where there is room no other page leaves, -/
  roomy : P.resident.size < P.capacity → r.1.resident = P.resident.insert p P.nextFrame
  /-- and else one page does, which is clean. -/
  evicts : P.capacity ≤ P.resident.size → ¬P.Clogged → ∃ q f, P.resident[q]? = some f ∧
    (P.page f).dirty = none ∧ r.1.resident = (P.resident.erase q).insert p P.nextFrame

/-- What a fetch of a page does that `t` has locked, exactly. -/
structure FetchesExactly (P : Pool δ) (p : PageId) (t : TxnId) : Prop where
  /-- A cached page is found where it is. -/
  hit : ∀ f, P.resident[p]? = some f →
    (P.fetch p).2 = .ok f ∧ Untouched P (P.fetch p).1 ∧ (P.fetch p).1.storage = P.storage
  /-- Another one is asked of the storage, once. -/
  asked : P.resident[p]? = none → (P.fetch p).1.storage = (Storage.readPage P.storage p).1
  /-- If it cannot be read nothing is touched. -/
  unread : ∀ e, P.resident[p]? = none → (Storage.readPage P.storage p).2 = .error e →
    (P.fetch p).2 = .error e ∧ Untouched P (P.fetch p).1
  read : ∀ x, P.resident[p]? = none → (Storage.readPage P.storage p).2 = .ok x →
    ComesIn P p x (P.fetch p)
  /-- In every case `t` keeps the lock. -/
  locked : (P.fetch p).1.locks = P.locks ∧ P.locks.holds p t

theorem comesIn_of_read (hP : P.Fits) {p : PageId} {s : δ} {x : Page} (hp : P.resident[p]? = none)
    (hr : Storage.readPage P.storage p = (s, .ok x)) : ComesIn P p x (P.fetch p) := by
  have hfinds : ∀ (Q : Pool δ), P.fetch p = (Q, .ok P.nextFrame) → ¬P.Clogged →
      ∀ e, (P.fetch p).2 = .error e ↔ P.Clogged ∧ e = .everyPageDirty := by
    intro Q hfetch hfree e
    rw [hfetch]
    exact ⟨nofun, fun he => absurd he.1 hfree⟩
  rcases fetch_of_read_cases hP hp hr with ⟨hroom, hfetch⟩ | ⟨hfull, q, hq, hfetch⟩ | ⟨hclog, hfetch⟩
  · have hfree : ¬P.Clogged := fun hclog => Nat.not_lt.2 hclog.full hroom
    refine ⟨hfinds _ hfetch hfree, fun hclog => absurd hclog hfree, fun _ => ?_, fun _ => ?_,
      fun hfull => absurd hroom (Nat.not_lt.2 hfull)⟩
    · rw [hfetch]
      exact ⟨rfl, rfl⟩
    · rw [hfetch]
      rfl
  · obtain ⟨f, hf, hclean⟩ := victim_clean hq
    have hfree : ¬P.Clogged := fun hclog => hclog.dirty q f hf hclean
    refine ⟨hfinds _ hfetch hfree, fun hclog => absurd hclog hfree, fun _ => ?_,
      fun hroom => absurd hroom (Nat.not_lt.2 hfull), fun _ _ => ⟨q, f, hf, hclean, ?_⟩⟩
    · rw [hfetch]
      exact ⟨rfl, rfl⟩
    · rw [hfetch]
      rfl
  · refine ⟨fun e => ?_, fun _ => ?_, fun hfree => absurd hclog hfree,
      fun hroom => absurd hroom (Nat.not_lt.2 hclog.full), fun _ hfree => absurd hclog hfree⟩
    · rw [hfetch]
      exact ⟨fun he => ⟨hclog, (Except.error.inj he).symm⟩, fun he => congrArg Except.error he.2.symm⟩
    · rw [hfetch]
      exact ⟨rfl, rfl⟩

/-- Of the storage only the page is asked, and of the locks nothing. -/
theorem fetch_of_uncached {p : PageId} (hp : P.resident[p]? = none) :
    (P.fetch p).1.storage = (Storage.readPage P.storage p).1 ∧ (P.fetch p).1.locks = P.locks := by
  rcases hr : Storage.readPage P.storage p with ⟨s, e | x⟩
  · rw [fetch_of_unread hp hr]
    exact ⟨rfl, rfl⟩
  · have hroom := (P.missed s).shrunk_makeRoom
    rw [fetch_of_read hp hr]
    rcases hR : (P.missed s).makeRoom with ⟨R, e | ⟨⟩⟩
    · rw [hR] at hroom
      exact ⟨hroom.storage, hroom.locks⟩
    · rw [hR] at hroom
      exact ⟨hroom.storage, hroom.locks⟩

theorem locks_fetch (P : Pool δ) (p : PageId) : (P.fetch p).1.locks = P.locks := by
  cases hp : P.resident[p]? with
  | some f =>
    rw [fetch_of_resident hp]
    rfl
  | none => exact (fetch_of_uncached hp).2

theorem Fits.fetchesExactly (hP : P.Fits) {p : PageId} {t : TxnId} (hheld : P.locks.holds p t) :
    FetchesExactly P p t := by
  refine ⟨fun f hf => ?_, fun hp => (fetch_of_uncached hp).1, fun e hp he => ?_, fun x hp hx => ?_,
    P.locks_fetch p, hheld⟩
  · rw [fetch_of_resident hf]
    exact ⟨rfl, ⟨rfl, rfl⟩, rfl⟩
  · rw [fetch_of_unread hp (Prod.ext rfl he)]
    exact ⟨rfl, rfl, rfl⟩
  · exact comesIn_of_read hP hp (Prod.ext rfl hx)

/-- **Handing out a page, exactly.** At every pool to which operations lead, over any storage, when the lock is
granted, wherever the search for a victim begins. -/
theorem fetches_exactly {o : Options} {draws : Draws} {s : δ} (hP₀ : create o.capacity draws s = .ok P₀)
    (hP : P₀.Reaches P) {p : PageId} {t : TxnId} {a : Access} {L : LockTable}
    (hgrant : P.locks.attempt p t a.mode = (L, .granted)) (d : Draws) :
    FetchesExactly { P with locks := L, draws := d } p t := by
  have hfits := hP.fits (fits_create hP₀)
  have hheld : L.holds p t := by
    have hmode := P.locks.modeOf_attempt p t a.mode p t
    rw [hgrant, if_pos ⟨rfl, rfl, rfl⟩] at hmode
    rw [LockTable.holds, hmode]
    rfl
  have hfits' : ({ P with locks := L, draws := d } : Pool δ).Fits := ⟨hfits.capacity, hfits.size⟩
  exact hfits'.fetchesExactly hheld

end Fetching

theorem crowd_locks (P : Pool Tables) : P.crowd.locks = P.locks := by
  show ((((P.fetch ⟨⟨1⟩, 0⟩).1).setPage ⟨0⟩ _).fetch ⟨⟨1⟩, 1⟩).1.locks = P.locks
  rw [locks_fetch]
  exact P.locks_fetch _

theorem fetches_exactly_crowd :
    ∃ L, create 1 (Draws.ofSeed 7) pairPool.storage = .ok freshPair ∧ freshPair.Reaches freshPair.crowd ∧
      freshPair.crowd.locks.attempt ⟨⟨1⟩, 1⟩ ⟨2⟩ Access.read.mode = (L, .granted) ∧
      FetchesExactly { freshPair.crowd with locks := L, draws := Draws.ofSeed 3 } ⟨⟨1⟩, 1⟩ ⟨2⟩ :=
  have hreaches := freshPair.reaches_crowd
  have hgrant := LockTable.attempt_of_unheld (L := freshPair.crowd.locks) (p := ⟨⟨1⟩, 1⟩)
    (fun u => by rw [crowd_locks]; exact LockTable.modeOf_empty _ u) ⟨2⟩ Access.read.mode
  ⟨_, rfl, hreaches, hgrant, fetches_exactly (o := { capacity := 1 }) rfl hreaches hgrant (Draws.ofSeed 3)⟩

end Pool

end PageEngine
