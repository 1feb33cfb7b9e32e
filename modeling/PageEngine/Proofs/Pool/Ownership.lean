import PageEngine.Proofs.Pool.Fetching
import PageEngine.Proofs.Storage.Growth

/-!
# `Proofs/Pool/Ownership.lean` — a heap file that has its table to itself

Where a table has one heap file and no other store (`HeapFile.Owns`), its pages come into the cache from that
file. Nothing is said of the calls on it, any of which may fail, nor of what its pages hold, which clients and
stores change as they like. What is asked of the others (`CacheOp.Respects`) is that they leave the file its
pages and do not install pages under its name that it has not got. Then

> **a page of the table that is in the cache is one that the file has** (`Pool.ReachesBy.backed`),

because pages are read from the file and the file keeps them. So a page that is appended is new to the cache.
-/

set_option autoImplicit false

namespace PageEngine

open Std

/-- No other store is registered for the table of `h`. -/
def HeapFile.Owns (h : HeapFile) (d : Tables) : Prop := ∀ s, d.catalog[h.table]? = some s → s = .heap h

/-- If the image is of the table of `h`, it is of a page that `h` has. -/
def HeapFile.Has (h : HeapFile) (P : Pool Tables) (f : FrameId) : Prop :=
  (P.page f).id.table = h.table → (P.page f).id.pageNo < h.pagesOn P.storage.disk

/-- The operation leaves `h` its table and its pages, and installs no page of that table that `h` has not got. A store
that hands in images of its own table has read them from its file. -/
def CacheOp.Respects (h : HeapFile) (P : Pool Tables) : CacheOp Tables → Prop
  | install _ f => h.Has P f
  | restock s => h.Owns s ∧ h.pagesOn P.storage.disk ≤ h.pagesOn s.disk
  | _ => True

/-- The pools to which operations of a kind lead. -/
inductive Pool.ReachesBy {δ : Type} [Storage δ] (kind : Pool δ → CacheOp δ → Prop) (P₀ : Pool δ) : Pool δ → Prop
  | refl : ReachesBy kind P₀ P₀
  | step {P : Pool δ} {o : CacheOp δ} :
      ReachesBy kind P₀ P → o.Allowed P → kind P o → ReachesBy kind P₀ (o.run P)

namespace Pool

/-! ## What becomes of the storage -/

section Storage

variable {δ : Type} [Storage δ] {motive : δ → Prop}

theorem ReachesBy.reaches {kind : Pool δ → CacheOp δ → Prop} {P₀ P : Pool δ} (h : P₀.ReachesBy kind P) :
    P₀.Reaches P := by
  induction h with
  | refl => exact .refl
  | step _ ho _ ih => exact ih.step ho

theorem ReachesBy.trans {kind : Pool δ → CacheOp δ → Prop} {P Q R : Pool δ} (h : P.ReachesBy kind Q)
    (h' : Q.ReachesBy kind R) : P.ReachesBy kind R := by
  induction h' with
  | refl => exact h
  | step _ ho hkind ih => exact ih.step ho hkind

theorem ReachesBy.mono {kind kind' : Pool δ → CacheOp δ → Prop} (hk : ∀ P o, kind P o → kind' P o) {P Q : Pool δ}
    (h : P.ReachesBy kind Q) : P.ReachesBy kind' Q := by
  induction h with
  | refl => exact .refl
  | step _ ho hkind ih => exact ih.step ho (hk _ _ hkind)

theorem storage_writeBack (hwrite : ∀ s x, motive s → motive (Storage.writePage s x).1) {P : Pool δ}
    (h : motive P.storage) (f : FrameId) : motive (P.writeBack f).1.storage := by
  have hw := hwrite P.storage (P.page f) h
  unfold writeBack
  dsimp only
  split
  · exact h
  · split
    · exact hw
    · exact hw

theorem storage_flushIn (hwrite : ∀ s x, motive s → motive (Storage.writePage s x).1) (ps : List PageId) :
    ∀ P : Pool δ, motive P.storage → motive (P.flushIn ps).1.storage := by
  induction ps with
  | nil => exact fun P h => h
  | cons p ps ih =>
    intro P h
    unfold flushIn
    split
    · exact ih P h
    · rename_i f _
      have hone := storage_writeBack hwrite h f
      split
      · rename_i hW
        rwa [hW] at hone
      · rename_i W _ hW
        rw [hW] at hone
        exact ih W hone

theorem storage_flushHeldIn (hwrite : ∀ s x, motive s → motive (Storage.writePage s x).1) (ps : List PageId) :
    ∀ (P : Pool δ) (written : List TableId), motive P.storage →
      motive (P.flushHeldIn written ps).1.storage := by
  induction ps with
  | nil => exact fun P _ h => h
  | cons p ps ih =>
    intro P written h
    unfold flushHeldIn
    split
    · exact ih P written h
    · rename_i f _
      have hone := storage_writeBack hwrite h f
      split
      · rename_i hW
        rwa [hW] at hone
      · rename_i W wrote hW
        rw [hW] at hone
        exact ih (W.setPage f (W.page f).capture) _ hone

theorem storage_syncTables (hsync : ∀ s t, motive s → motive (Storage.syncTable s t).1) (ts : List TableId) :
    ∀ P : Pool δ, motive P.storage → motive (P.syncTables ts).1.storage := by
  induction ts with
  | nil => exact fun P h => h
  | cons t ts ih =>
    intro P h
    have hone := hsync P.storage t h
    unfold syncTables
    dsimp only
    split
    · exact hone
    · exact ih _ hone

theorem storage_settlePages (hwrite : ∀ s x, motive s → motive (Storage.writePage s x).1)
    (hsync : ∀ s t, motive s → motive (Storage.syncTable s t).1) {P : Pool δ} (h : motive P.storage) (t : TxnId)
    (commit : Bool) : motive (P.settlePages t commit).1.storage := by
  cases commit with
  | false =>
    show motive (P.restoreHeld t).storage
    rw [restoreHeld, restorePages_eq]
    exact h
  | true =>
    have hin := storage_flushHeldIn hwrite (P.locks.heldPages t) P [] h
    show motive (P.flushHeld t).1.storage
    unfold flushHeld
    split
    · rename_i hR
      rwa [hR] at hin
    · rename_i R tables hR
      rw [hR] at hin
      exact storage_syncTables hsync tables R hin

/-- Whatever calls keep of the storage, operations keep, except that the storage is changed from outside. -/
theorem storage_run (hread : ∀ s p, motive s → motive (Storage.readPage s p).1)
    (hwrite : ∀ s x, motive s → motive (Storage.writePage s x).1)
    (hsync : ∀ s t, motive s → motive (Storage.syncTable s t).1) {P : Pool δ} {o : CacheOp δ}
    (ho : ∀ s, o = .restock s → motive s) (h : motive P.storage) : motive (o.run P).storage := by
  cases o with
  | fetch p =>
    show motive (P.fetch p).1.storage
    cases hp : P.resident[p]? with
    | some f =>
      rw [fetch_of_resident hp]
      exact h
    | none =>
      rw [(fetch_of_uncached hp).1]
      exact hread _ p h
  | install t f =>
    show motive (P.install t f).1.storage
    rcases P.install_cases t f with ⟨-, hi⟩ | ⟨g, -, -, hi⟩ | ⟨-, R, hR, ⟨e, hi⟩ | hi⟩
    all_goals rw [hi]
    · exact h
    · exact h
    · show motive R.storage
      rw [hR.storage]
      exact h
    · show motive R.storage
      rw [hR.storage]
      exact h
  | flush ps => exact storage_flushIn hwrite ps P h
  | settle t commit => exact storage_settlePages hwrite hsync h t commit
  | restock s => exact ho s rfl
  | _ => exact h

end Storage

/-! ## Pages that there are -/

section Backed

variable {h : HeapFile} {P P₀ : Pool Tables}

/-- The table of `h` is its own, and the pages of `h` in the cache are pages that it has. -/
structure Backed (h : HeapFile) (P : Pool Tables) : Prop where
  owns : h.Owns P.storage
  within : ∀ (p : PageId) (f : FrameId), P.resident[p]? = some f → p.table = h.table →
    p.pageNo < h.pagesOn P.storage.disk

theorem backed_create {capacity : Nat} {draws : Draws} {d : Tables} (hd : h.Owns d)
    (hP : create capacity draws d = .ok P) : Backed h P := by
  obtain ⟨-, rfl⟩ := create_ok hP
  exact ⟨hd, fun p f hf => by simp at hf⟩

/-- A page is in the cache after an operation if it was there, or was installed, or was read. -/
theorem cached_run (P : Pool Tables) (o : CacheOp Tables) {p : PageId} {f : FrameId}
    (hf : (o.run P).resident[p]? = some f) :
    P.resident[p]? = some f ∨ (∃ t, o = .install t f ∧ (P.page f).id = p) ∨
      ∃ x, P.storage.readPage p = .ok x := by
  cases o with
  | fetch q =>
    change (P.fetch q).1.resident[p]? = some f at hf
    rcases P.fetch_reads q with ⟨R, g, hR, -, -, hfetch⟩ | ⟨R, e, hR, hfetch⟩ | ⟨R, x, hR, -, hread, hfetch⟩
    all_goals rw [hfetch] at hf
    · exact .inl (hR.resident_of_some hf)
    · exact .inl (hR.resident_of_some hf)
    · rw [resident_cache] at hf
      split at hf
      · rename_i hp
        exact .inr (.inr ⟨x, hp ▸ hread⟩)
      · exact .inl (hR.resident_of_some hf)
  | install t g =>
    have hput : ∀ R : Pool Tables,
        (∀ (q : PageId) (k : FrameId), R.resident[q]? = some k → P.resident[q]? = some k) →
        (R.cache (P.page g).id g).resident[p]? = some f →
        P.resident[p]? = some f ∨
          ∃ u, (CacheOp.install t g : CacheOp Tables) = .install u f ∧ (P.page f).id = p := by
      intro R hR hRf
      rw [resident_cache] at hRf
      split at hRf
      · rename_i hp
        obtain rfl := Option.some.inj hRf
        exact .inr ⟨t, rfl, hp.symm⟩
      · exact .inl (hR p f hRf)
    change (P.install t g).1.resident[p]? = some f at hf
    rcases P.install_cases t g with ⟨-, hi⟩ | ⟨k, -, -, hi⟩ | ⟨-, R, hR, ⟨e, hi⟩ | hi⟩
    all_goals rw [hi] at hf
    · exact .inl hf
    · exact (hput _ (fun _ _ hq => hq) hf).imp_right .inl
    · exact .inl (hR.resident_of_some hf)
    · exact (hput R (fun _ _ hq => hR.resident_of_some hq) hf).imp_right .inl
  | flush ps => exact .inl ((sameCache_flushIn ps P).resident ▸ hf)
  | settle t commit => exact .inl ((P.sameCache_settlePages t commit).resident ▸ hf)
  | discard q =>
    change (P.resident.erase q)[p]? = some f at hf
    rw [ExtTreeMap.getElem?_erase] at hf
    split at hf
    · cases hf
    · exact .inl hf
  | _ => exact .inl hf

/-- A page of `h` that is read is one that it has. -/
theorem pageNo_of_read {d : Tables} (hd : h.Owns d) {p : PageId} {x : Page} (hread : d.readPage p = .ok x)
    (ht : p.table = h.table) : p.pageNo < h.pagesOn d.disk := by
  obtain ⟨-, hlt, -⟩ := Tables.readPage_ok hread
  cases hs : d.catalog[p.table]? with
  | none => simp [Tables.pages, Tables.bytesOf, hs] at hlt
  | some s =>
    rw [hd s (ht ▸ hs)] at hs
    rwa [Tables.pages_of_heap hs] at hlt

/-- No operation takes pages from `h`. -/
theorem pagesOn_run {o : CacheOp Tables} (ho : o.Respects h P) :
    h.pagesOn P.storage.disk ≤ h.pagesOn (o.run P).storage.disk := by
  generalize hn : h.pagesOn P.storage.disk = n
  refine storage_run (motive := fun s => n ≤ h.pagesOn s.disk) (P := P) (o := o) ?_ ?_ ?_ ?_ ?_
  · intro s p hs
    exact hs
  · intro s x hs
    exact Nat.le_trans hs ((Tables.noShorter_writePage s x).pagesOn h)
  · intro s t hs
    exact Nat.le_trans hs ((Tables.noShorter_syncTable s t).pagesOn h)
  · intro s hos
    subst hos
    exact hn ▸ ho.2
  · exact Nat.le_of_eq hn.symm

theorem Backed.run (hb : Backed h P) {o : CacheOp Tables} (ho : o.Respects h P) : Backed h (o.run P) := by
  have howns : h.Owns (o.run P).storage := by
    refine storage_run (motive := h.Owns) (fun s p hs => hs) (fun s x hs => ?_) (fun s t hs => ?_)
      (fun s hos => ?_) hb.owns
    · intro r hr
      exact hs r ((congrArg (fun m => m[h.table]?) (Tables.catalog_writePage s x)).symm.trans hr)
    · intro r hr
      exact hs r ((congrArg (fun m => m[h.table]?) (Tables.catalog_syncTable s t)).symm.trans hr)
    · subst hos
      exact ho.1
  have hpages := pagesOn_run ho
  refine ⟨howns, fun p f hf ht => ?_⟩
  rcases P.cached_run o hf with hold | ⟨t, rfl, hid⟩ | ⟨x, hread⟩
  · exact Nat.lt_of_lt_of_le (hb.within p f hold ht) hpages
  · rw [← hid] at ht ⊢
    exact Nat.lt_of_lt_of_le (ho ht) hpages
  · exact Nat.lt_of_lt_of_le (pageNo_of_read hb.owns hread ht) hpages

/-- **Every page of `h` in the cache is one that `h` has**, whatever operations have led there. -/
theorem ReachesBy.backed (hb : Backed h P₀) (hP : P₀.ReachesBy (CacheOp.Respects h) P) : Backed h P := by
  induction hP with
  | refl => exact hb
  | step _ _ ho ih => exact ih.run ho

end Backed

end Pool

end PageEngine
