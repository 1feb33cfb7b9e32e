import PageEngine.Proofs.World.Keeping

/-!
# `Proofs/World/Storing.lean` — what reaches the stores

The stores change in three ways: a commit writes the pages that its transaction has dirtied, an insert
that finds no room adds a page of zeros, and a table is registered. An abort leaves them alone.

> **a commit brings to the stores the changes of its transaction and nothing else.** The pages that it
> captures besides are clean, so for them it changes nothing.
-/

set_option autoImplicit false

namespace PageEngine

open Std

section Storing

variable {origin : PageId → PageData} {ch : FrameId → Prop} {t u : TxnId} {P P' : Pool Tables}
  {h h' : History} {p : PageId} {f : FrameId}

/-! ## Ending a transaction -/

theorem Unclaimed.settled (hfree : Unclaimed ch P t) (hc : Cached ch P h p f)
    (hheld : (P.locks.modeOf p t).isSome) : ¬ch f := by
  intro hf
  have hnone := (hfree f hf).2
  rw [hc.image.id_eq] at hnone
  rw [hnone] at hheld
  cases hheld

theorem Cached.owner_eq (hc : Cached ch P h p f) (hheld : (P.locks.modeOf p t).isSome) {s : TxnId}
    (hs : (P.page f).dirty = some s) : s = t :=
  (LockTable.eq_of_modeOf_exclusive (hc.dirty s hs).1 hheld).symm

theorem Cached.clean_of_shared (hc : Cached ch P h p f) (ht : (P.locks.modeOf p t).isSome)
    (hu : (P.locks.modeOf p u).isSome) (hne : u ≠ t) : (P.page f).dirty = none := by
  cases hs : (P.page f).dirty with
  | none => rfl
  | some s => exact absurd ((hc.owner_eq hu hs).symm.trans (hc.owner_eq ht hs)) hne

/-- A cached page that nobody holds shows the store. -/
theorem Cached.data_of_free (hc : Cached ch P h p f) (hfree : ∀ u, P.locks.modeOf p u = none) (hf : ¬ch f) :
    (P.page f).data = P.storage.contents p := by
  refine hc.clean (Option.eq_none_iff_forall_ne_some.2 fun u hu => ?_) hf
  have hmode := (hc.dirty u hu).1
  rw [hfree u] at hmode
  cases hmode

/-- What the end of `t` does to the pages that it holds does not show to others, if it leaves alone the
clean frames of the pages that it shares. -/
theorem PoolInv.rely_of_reworked (hi : PoolInv origin ch P h) (hfree : Unclaimed ch P t) (hu : u ≠ t)
    {φ : PageId → Page → Page} (hre : P.Reworked P' (P.locks.heldPages t) φ)
    (hφ : ∀ p x, P.locks.modeOf p t ≠ some .exclusive → x.dirty = none →
      x.data = x.beforeImage → φ p x = x)
    (hcontents : ∀ p, (P.locks.modeOf p u).isSome →
      P'.storage.contents p = P.storage.contents p)
    (hpages : ∀ s, P'.storage.pages s = P.storage.pages s)
    (hcat : P'.storage.catalog = P.storage.catalog)
    (hown : ∀ p, History.own u p h' = History.own u p h) : Rely u P P' h h' where
  modes q := by rw [hre.locks]
  size := Nat.le_of_eq hre.size.symm
  frames g hlt hheld := by
    by_cases hg : ∃ q ∈ P.locks.heldPages t, P.resident[q]? = some g
    · obtain ⟨q, hq, hqg⟩ := hg
      have hc := hi.cached q g hqg
      have ht := (LockTable.mem_heldPages hi.locks).1 hq
      rw [hc.image.id_eq] at hheld
      have hclean := hc.clean_of_shared ht hheld hu
      rw [hre.listed q hq g hqg]
      refine hφ q _ (fun hX => hu (LockTable.eq_of_modeOf_exclusive hX hheld)) hclean ?_
      rw [hc.clean hclean (hfree.settled hc ht), hc.image.before_eq]
    · exact hre.other g fun q hq hqg => hg ⟨q, hq, hqg⟩
  resident q _ := .inl (by rw [hre.resident])
  contents q _ hheld := hcontents q hheld
  hasPage q hq := ⟨by rw [hpages]; exact hq.1, hq.2⟩
  catalog s r hr := by rw [hcat]; exact hr
  own := hown

/-- **An abort takes the changes of its transaction out of the cache.** -/
theorem PoolInv.keeps_abort (hi : PoolInv origin ch P h) (hfree : Unclaimed ch P t) :
    Keeps origin t ch P h (P.restoreHeld t) (.ended t false :: h) := by
  obtain ⟨hs, hre⟩ := P.restoreHeld_spec hi.filed t
  have hown : ∀ s, s ≠ t → ∀ q, History.own s q (.ended t false :: h) = History.own s q h :=
    fun s hst q => if_neg hst.symm
  -- The frame of a page that `t` does not hold exclusively stays.
  have hkeep : ∀ (q : PageId) (g : FrameId), P.resident[q]? = some g →
      P.locks.modeOf q t ≠ some .exclusive → (P.restoreHeld t).page g = P.page g := by
    intro q g hg hX
    rw [hre.page_eq hi.filed hg, Pool.aborted, if_neg hX, ite_self]
  refine ⟨⟨by rw [hs]; exact hi.sound, by rw [hre.locks]; exact hi.locks,
    fun q => by rw [hs]; exact hi.stored q, ?_, ?_⟩,
    fun u hu => hi.rely_of_reworked hfree hu hre (fun q x hX _ _ => if_neg hX)
      (fun q _ => by rw [hs]) (fun s => by rw [hs]) (by rw [hs]) (hown u hu)⟩
  · intro q g hg
    rw [hre.resident] at hg
    have hc := hi.cached q g hg
    by_cases hX : P.locks.modeOf q t = some .exclusive
    · have hmem : q ∈ P.locks.heldPages t :=
        (LockTable.mem_heldPages hi.locks).2 (by rw [hX]; rfl)
      have hpage : (P.restoreHeld t).page g = (P.page g).restore := by
        rw [hre.listed q hmem g hg, Pool.aborted, if_pos hX]
      refine ⟨⟨hre.size ▸ hc.image.index_lt, by rw [hpage]; exact hc.image.id_eq,
        by rw [hs]; exact hc.image.hasPage, ?_⟩, ?_, ?_⟩
      · rw [hpage, hs]
        exact hc.image.before_eq
      · intro _ _
        rw [hpage, hs]
        exact hc.image.before_eq
      · intro s hsd
        rw [hpage] at hsd
        cases hsd
    · have hc' := hc.congr hs hre.locks (hkeep q g hg hX) (Nat.le_of_eq hre.size.symm)
      refine ⟨hc'.image, hc'.clean, ?_⟩
      intro s hsd
      obtain ⟨hXs, d, hd, hdata⟩ := hc'.dirty s hsd
      have hst : s ≠ t := by
        intro hst
        rw [hre.locks, hst] at hXs
        exact hX hXs
      exact ⟨hXs, d, (hown s hst q).trans hd, hdata⟩
  · intro s q d hd
    have hst : s ≠ t := by
      intro hst
      rw [hst] at hd
      simp [History.own] at hd
    rw [hown s hst] at hd
    obtain ⟨g, hg, hdirty⟩ := hi.owned s q d hd
    have hX : P.locks.modeOf q t ≠ some .exclusive := by
      intro hX
      rw [hi.own_none_of_held (by rw [hX]; rfl) hst] at hd
      cases hd
    exact ⟨g, by rw [hre.resident]; exact hg, by rw [hkeep q g hg hX]; exact hdirty⟩

/-- After a commit the store holds what the cached frame of a held page shows. -/
theorem PoolInv.contents_of_written (hi : PoolInv origin ch P h) (hfree : Unclaimed ch P t)
    {d : Tables} (hw : P.Written d (P.locks.heldPages t)) (hg : P.resident[p]? = some f)
    (hheld : (P.locks.modeOf p t).isSome) : d.contents p = (P.page f).data := by
  have hc := hi.cached p f hg
  cases hdirty : (P.page f).dirty with
  | none =>
    rw [hw.other p fun _ g hg' => by rw [← Option.some.inj (hg.symm.trans hg')]; exact hdirty,
      hc.clean hdirty (hfree.settled hc hheld)]
  | some s =>
    exact hw.listed p ((LockTable.mem_heldPages hi.locks).2 hheld) f hg (by rw [hdirty]; simp)

/-- A commit changes the contents of the pages that its transaction has changed, and no others. -/
theorem PoolInv.contents_of_commit (hi : PoolInv origin ch P h) (hfree : Unclaimed ch P t)
    {d : Tables} (hw : P.Written d (P.locks.heldPages t)) (p : PageId) :
    d.contents p = shown P h t p := by
  cases hown : History.own t p h with
  | some x =>
    obtain ⟨f, hf, hdirty⟩ := hi.owned t p x hown
    have hc := hi.cached p f hf
    obtain ⟨hX, y, hy, hdata⟩ := hc.dirty t hdirty
    have hheld : (P.locks.modeOf p t).isSome := by rw [hX]; rfl
    rw [hown, Option.some.injEq] at hy
    rw [hi.contents_of_written hfree hw hf hheld, hdata (hfree.settled hc hheld), shown, hown, hy]
    rfl
  | none =>
    rw [shown, hown]
    apply hw.other p
    intro hmem f hf
    have hc := hi.cached p f hf
    cases hdirty : (P.page f).dirty with
    | none => rfl
    | some s =>
      have hst := hc.owner_eq ((LockTable.mem_heldPages hi.locks).1 hmem) hdirty
      obtain ⟨-, d, hd, -⟩ := hc.dirty s hdirty
      rw [hst, hown] at hd
      cases hd

/-- **A commit makes the changes of its transaction what is committed.** -/
theorem PoolInv.keeps_commit (hi : PoolInv origin ch P h) (hfree : Unclaimed ch P t) :
    Keeps origin t ch P h (P.flushHeld t).1 (.ended t true :: h) := by
  obtain ⟨hre, hw⟩ := Pool.flushHeld_spec hi.sound hi.filed
    (fun q g hg => (hi.cached q g hg).image.hasPage) t
  have hown : ∀ s, s ≠ t → ∀ q, History.own s q (.ended t true :: h) = History.own s q h :=
    fun s hst q => if_neg hst.symm
  have hmem : ∀ q, q ∈ P.locks.heldPages t ↔ (P.locks.modeOf q t).isSome :=
    fun q => LockTable.mem_heldPages hi.locks
  refine ⟨⟨hw.sound, by rw [hre.locks]; exact hi.locks, ?_, ?_,
    ?_⟩, fun u hu => hi.rely_of_reworked hfree hu hre ?_
      (fun q hheld => hw.other q ?_) hw.pages hw.catalog (hown u hu)⟩
  · intro q
    rw [hi.contents_of_commit hfree hw, shown, hi.stored]
    rfl
  · intro q g hg
    rw [hre.resident] at hg
    have hc := hi.cached q g hg
    have hpage : (P.flushHeld t).1.storage.HasPage q :=
      ⟨by rw [hw.pages]; exact hc.image.hasPage.1, hc.image.hasPage.2⟩
    by_cases hheld : (P.locks.modeOf q t).isSome
    · have hframe : (P.flushHeld t).1.page g = (P.page g).markClean.capture :=
        hre.listed q ((hmem q).2 hheld) g hg
      have hcontents := hi.contents_of_written hfree hw hg hheld
      refine ⟨⟨hre.size ▸ hc.image.index_lt, by rw [hframe]; exact hc.image.id_eq, hpage, ?_⟩,
        ?_, ?_⟩
      · rw [hframe, hcontents]
        rfl
      · intro _ _
        rw [hframe, hcontents]
        rfl
      · intro s hsd
        rw [hframe] at hsd
        cases hsd
    · have hframe : (P.flushHeld t).1.page g = P.page g := by
        rw [hre.page_eq hi.filed hg, if_neg fun hq => hheld ((hmem q).1 hq)]
      have hcontents : (P.flushHeld t).1.storage.contents q = P.storage.contents q :=
        hw.other q fun hq => absurd ((hmem q).1 hq) hheld
      refine ⟨⟨hre.size ▸ hc.image.index_lt, by rw [hframe]; exact hc.image.id_eq, hpage,
        by rw [hframe, hcontents]; exact hc.image.before_eq⟩,
        by rw [hframe, hcontents]; exact hc.clean, ?_⟩
      intro s hsd
      rw [hframe] at hsd
      obtain ⟨hX, d, hd, hdata⟩ := hc.dirty s hsd
      have hst : s ≠ t := by
        intro hst
        rw [hst] at hX
        exact hheld (by rw [hX]; rfl)
      exact ⟨by rw [hre.locks]; exact hX, d, (hown s hst q).trans hd, by rw [hframe]; exact hdata⟩
  · intro s q d hd
    have hst : s ≠ t := by
      intro hst
      rw [hst] at hd
      simp [History.own] at hd
    rw [hown s hst] at hd
    obtain ⟨g, hg, hdirty⟩ := hi.owned s q d hd
    refine ⟨g, by rw [hre.resident]; exact hg, ?_⟩
    have hnot : q ∉ P.locks.heldPages t := fun hq =>
      hst ((hi.cached q g hg).owner_eq ((hmem q).1 hq) hdirty)
    rw [hre.page_eq hi.filed hg, if_neg hnot]
    exact hdirty
  · intro q x _ hclean hdata
    show x.markClean.capture = x
    rw [Page.markClean_of_clean hclean, Page.capture_of_eq hdata]
  · intro hq g hg
    exact (hi.cached q g hg).clean_of_shared ((hmem q).1 hq) hheld hu

/-! ## Growing -/

/-- `d'` has the tables and pages of `d` as they are there, and perhaps more. -/
structure Tables.Grown (d d' : Tables) : Prop where
  sound : d'.Sound
  catalog : ∀ (s : TableId) (r : Store), d.catalog[s]? = some r → d'.catalog[s]? = some r
  hasPage : ∀ q, d.HasPage q → d'.HasPage q
  contents : ∀ q, d.HasPage q → d'.contents q = d.contents q

/-- **Pages and tables can be added**: nothing of them is in the cache. -/
theorem PoolInv.of_grown (hi : PoolInv origin ch P h) {d : Tables} (hg : P.storage.Grown d)
    (hown : ∀ s q, History.own s q h' = History.own s q h)
    (hcom : ∀ q, d.contents q = History.committed origin q h') :
    PoolInv origin ch { P with storage := d } h' where
  sound := hg.sound
  locks := hi.locks
  stored := hcom
  cached q g hqg := by
    obtain ⟨himage, hclean, hdirty⟩ := hi.cached q g hqg
    have hsame := hg.contents q himage.hasPage
    exact ⟨⟨himage.index_lt, himage.id_eq, hg.hasPage q himage.hasPage,
        himage.before_eq.trans hsame.symm⟩,
      fun hc hf => (hclean hc hf).trans hsame.symm,
      fun s hs => by rw [hown]; exact hdirty s hs⟩
  owned s q x hx := hi.owned s q x ((hown s q).symm.trans hx)

theorem Rely.of_grown {d : Tables} (hg : P.storage.Grown d)
    (hown : ∀ q, History.own u q h' = History.own u q h) :
    Rely u P { P with storage := d } h h' where
  modes _ := rfl
  size := Nat.le_refl _
  frames _ _ _ := rfl
  resident _ _ := .inl rfl
  contents q hq _ := hg.contents q hq
  hasPage := hg.hasPage
  catalog := hg.catalog
  own := hown

theorem Tables.Rewritten.grown {d d' : Tables} {s : TableId} {x : PageData}
    (hrw : Tables.Rewritten d d' ⟨s, d.pages s⟩ x) : d.Grown d' where
  sound := hrw.sound
  catalog r y hy := by rw [hrw.catalog]; exact hy
  hasPage q hq := hrw.hasPage hq
  contents q hq := by
    rw [hrw.contents, if_neg]
    intro hqs
    have hlt := hq.1
    rw [hqs] at hlt
    exact Nat.lt_irrefl _ hlt

theorem PoolInv.keeps_append (hi : PoolInv origin ch P h) {d : Tables} {s : TableId}
    (hrw : Tables.Rewritten P.storage d ⟨s, P.storage.pages s⟩ PageData.zeros) :
    Keeps origin t ch P h { P with storage := d } (.appended ⟨s, P.storage.pages s⟩ :: h) := by
  refine ⟨hi.of_grown hrw.grown (fun _ _ => rfl) ?_,
    fun u _ => .of_grown hrw.grown fun _ => rfl⟩
  intro q
  rw [hrw.contents, hi.stored]
  simp only [History.committed, eq_comm (a := q)]

theorem Tables.grown_register {d : Tables} (hd : d.Sound) {file : HeapFile} (hf : d.Fresh file) :
    d.Grown (d.register (.heap file)) := by
  have hne : ∀ q, d.HasPage q → q.table ≠ file.table :=
    fun q hq => hf.table_ne hd (Nat.lt_of_le_of_lt (Nat.zero_le _) hq.1)
  refine ⟨hd.register hf, ?_, fun q hq => ⟨?_, hq.2⟩, fun q hq => contents_register (hne q hq)⟩
  · intro s r hr
    rw [Tables.catalog_register, if_neg, hr]
    intro hs
    rw [hs, hf.table] at hr
    cases hr
  · rw [pages_register (hne q hq)]
    exact hq.1

theorem PoolInv.contents_register (hi : PoolInv origin ch P h) (file : HeapFile) (q : PageId) :
    (P.storage.register (.heap file)).contents q = History.committed origin q
      (.registered file.table (P.storage.disk.bytes file.file.name) :: h) := by
  simp only [History.committed, eq_comm (a := file.table)]
  by_cases hq : q.table = file.table
  · rw [if_pos hq, Tables.contents, Tables.bytesOf_register, if_pos hq]
  · rw [if_neg hq, ← hi.stored, Tables.contents_register hq]

end Storing

end PageEngine
