import Mathlib.Data.List.Basic
import PageEngine.Proofs.Pool.Faults

/-!
# `Proofs/Pool/Commit.lean` — a commit, call by call

Any storage may lie below the pool, and any call on it may fail. A commit is then described by the calls
that it makes: a write of each dirty page that the transaction holds, in the order of pages, and a sync of
each table that was written (`Pool.commitCalls`). It makes them in order, up to the first that fails.

> **each call belongs to a page that is settled with it**: the pages before a write that fails are clean
> and captured, that page and the later ones are as they were.

A call is known by what it does to the storage. Because the storage is arbitrary, two lists of calls that
leave every storage the same are the same calls.
-/

set_option autoImplicit false

namespace PageEngine

open Std

/-! ## Calls on a storage -/

/-- A call that changes a storage. -/
inductive StorageCall where
  | write (x : Page)
  | sync (t : TableId)
deriving DecidableEq

namespace StorageCall

variable {δ : Type} [Storage δ]

def serve (s : δ) : StorageCall → δ × Except Error Unit
  | write x => Storage.writePage s x
  | sync t => Storage.syncTable s t

/-- Makes calls in order, up to the first that fails. -/
def serveAll (s : δ) : List StorageCall → δ × Except Error Unit
  | [] => (s, .ok ())
  | c :: cs =>
    match c.serve s with
    | (s, .error e) => (s, .error e)
    | (s, .ok ()) => serveAll s cs

theorem serveAll_append {s s' : δ} {cs : List StorageCall} (h : serveAll s cs = (s', .ok ()))
    (ds : List StorageCall) : serveAll s (cs ++ ds) = serveAll s' ds := by
  induction cs generalizing s with
  | nil =>
    obtain rfl := congrArg Prod.fst h
    rfl
  | cons c cs ih =>
    rw [serveAll] at h
    rw [List.cons_append, serveAll]
    split
    · rename_i hc
      rw [hc] at h
      cases congrArg Prod.snd h
    · rename_i hc
      rw [hc] at h
      exact ih h

theorem serveAll_append_of_error {s s' : δ} {cs : List StorageCall} {e : Error}
    (h : serveAll s cs = (s', .error e)) (ds : List StorageCall) :
    serveAll s (cs ++ ds) = (s', .error e) := by
  induction cs generalizing s with
  | nil => cases congrArg Prod.snd h
  | cons c cs ih =>
    rw [serveAll] at h
    rw [List.cons_append, serveAll]
    split
    · rename_i hc
      rw [hc] at h
      exact h
    · rename_i hc
      rw [hc] at h
      exact ih h

/-- The calls stop at the one that fails, whatever was to follow. -/
theorem serveAll_stops {s s' s'' : δ} {cs : List StorageCall} (h : serveAll s cs = (s', .ok ()))
    {c : StorageCall} {e : Error} (hc : c.serve s' = (s'', .error e)) (ds : List StorageCall) :
    serveAll s (cs ++ c :: ds) = (s'', .error e) := by
  rw [serveAll_append h, serveAll, hc]

/-- The first call that fails is determined by the calls. -/
theorem first_failure_unique {s s₁ s₂ r₁ r₂ : δ} {cs₁ cs₂ ds₁ ds₂ : List StorageCall}
    {c d : StorageCall} {e₁ e₂ : Error} (heq : cs₁ ++ c :: ds₁ = cs₂ ++ d :: ds₂)
    (hok₁ : serveAll s cs₁ = (s₁, .ok ())) (hfail₁ : c.serve s₁ = (r₁, .error e₁))
    (hok₂ : serveAll s cs₂ = (s₂, .ok ())) (hfail₂ : d.serve s₂ = (r₂, .error e₂)) :
    cs₁ = cs₂ ∧ c = d := by
  rcases List.append_eq_append_iff.1 heq with ⟨as, rfl, has⟩ | ⟨as, rfl, has⟩
  · cases as with
    | nil => exact ⟨(List.append_nil cs₁).symm, (List.cons.inj has).1⟩
    | cons a as =>
      obtain ⟨rfl, -⟩ := List.cons.inj has
      rw [serveAll_stops hok₁ hfail₁] at hok₂
      cases congrArg Prod.snd hok₂
  · cases as with
    | nil => exact ⟨List.append_nil cs₂, ((List.cons.inj has).1).symm⟩
    | cons a as =>
      obtain ⟨rfl, -⟩ := List.cons.inj has
      rw [serveAll_stops hok₂ hfail₂] at hok₁
      cases congrArg Prod.snd hok₁

end StorageCall

open StorageCall

/-- Enters a table at the end of a list, unless it is there. -/
def addTable (ts : List TableId) (u : TableId) : List TableId := if ts.contains u then ts else ts ++ [u]

/-- Enters the tables of pages, in the order in which they first come. -/
def addTables (ts : List TableId) (xs : List Page) : List TableId :=
  xs.foldl (fun ts x => addTable ts x.id.table) ts

theorem mem_addTable {ts : List TableId} {u v : TableId} : v ∈ addTable ts u ↔ v ∈ ts ∨ v = u := by
  unfold addTable
  split
  · rename_i hu
    rw [List.contains_iff_mem] at hu
    exact ⟨.inl, fun hv => hv.elim id fun he => he ▸ hu⟩
  · rw [List.mem_append, List.mem_singleton]

theorem addTable_nodup {ts : List TableId} (hts : ts.Nodup) (u : TableId) : (addTable ts u).Nodup := by
  unfold addTable
  split
  · exact hts
  · rename_i hu
    rw [List.contains_iff_mem] at hu
    refine List.nodup_append.2 ⟨hts, List.pairwise_singleton _ u, fun a ha b hb heq => hu ?_⟩
    rwa [← List.mem_singleton.1 hb, ← heq]

theorem mem_addTables {v : TableId} (xs : List Page) :
    ∀ ts, v ∈ addTables ts xs ↔ v ∈ ts ∨ ∃ x ∈ xs, x.id.table = v := by
  induction xs with
  | nil => exact fun ts => by simp [addTables]
  | cons x xs ih =>
    intro ts
    refine (ih _).trans ?_
    rw [mem_addTable, List.exists_mem_cons_iff, or_assoc, eq_comm (a := v)]

theorem addTables_nodup (xs : List Page) : ∀ ts : List TableId, ts.Nodup → (addTables ts xs).Nodup := by
  induction xs with
  | nil => exact fun ts hts => hts
  | cons x xs ih => exact fun ts hts => ih _ (addTable_nodup hts x.id.table)

/-- The held pages are listed in ascending order. -/
theorem LockTable.heldPages_ascending (L : LockTable) (t : TxnId) :
    (L.heldPages t).Pairwise fun p q => compare p q = .lt := ExtTreeSet.ordered_toList

/-- In an ascending list the members before a page are those below it. -/
theorem PageId.mem_before_iff {ps reached rest : List PageId} {p q : PageId}
    (hasc : ps.Pairwise fun p q => compare p q = .lt) (hps : ps = reached ++ q :: rest) (hp : p ∈ ps) :
    p ∈ reached ↔ compare p q = .lt := by
  subst hps
  obtain ⟨-, hrest, hbelow⟩ := List.pairwise_append.1 hasc
  constructor
  · exact fun hmem => hbelow p hmem q List.mem_cons_self
  · intro hlt
    rcases List.mem_append.1 hp with hmem | hmem
    · exact hmem
    · rcases List.mem_cons.1 hmem with rfl | hmem
      · rw [Std.compare_eq_iff_eq.2 rfl] at hlt
        cases hlt
      · have hgt := (List.pairwise_cons.1 hrest).1 p hmem
        rw [OrientedCmp.gt_of_lt hgt] at hlt
        cases hlt

namespace Pool

section Images

variable {δ : Type} {P Q : Pool δ} {p : PageId} {x : Page}

/-! ## Dirty images -/

/-- The image that the cache has of a page, if the page is dirty. -/
def dirtyImage (P : Pool δ) (p : PageId) : Option Page :=
  (P.resident[p]?.map P.page).filter fun x => !x.isClean

/-- The dirty images of the pages in a list. -/
def dirtyAmong (P : Pool δ) (ps : List PageId) : List Page := ps.filterMap P.dirtyImage

/-- The dirty pages that a transaction holds, in ascending order. -/
def dirtyHeld (P : Pool δ) (t : TxnId) : List Page := P.dirtyAmong (P.locks.heldPages t)

/-- The tables of the dirty pages that a transaction holds. -/
def dirtyTables (P : Pool δ) (t : TxnId) : List TableId := addTables [] (P.dirtyHeld t)

/-- What a commit asks of the storage. -/
def commitCalls (P : Pool δ) (t : TxnId) : List StorageCall :=
  (P.dirtyHeld t).map .write ++ (P.dirtyTables t).map .sync

theorem dirtyImage_eq_some :
    P.dirtyImage p = some x ↔ ∃ f, P.resident[p]? = some f ∧ P.page f = x ∧ x.dirty ≠ none := by
  simp only [dirtyImage, Option.filter_eq_some_iff, Option.map_eq_some_iff, Bool.not_eq_true',
    Page.isClean, Option.isNone_eq_false_iff, Option.isSome_iff_ne_none]
  constructor
  · rintro ⟨⟨f, hf, hx⟩, hdirty⟩
    exact ⟨f, hf, hx, hdirty⟩
  · rintro ⟨f, hf, hx, hdirty⟩
    exact ⟨⟨f, hf, hx⟩, hdirty⟩

theorem dirtyImage_of_dirty {f : FrameId} (hf : P.resident[p]? = some f) (hdirty : (P.page f).dirty ≠ none) :
    P.dirtyImage p = some (P.page f) := dirtyImage_eq_some.2 ⟨f, hf, rfl, hdirty⟩

theorem clean_of_dirtyImage {f : FrameId} (hf : P.resident[p]? = some f) (h : P.dirtyImage p = none) :
    (P.page f).dirty = none := by
  by_contra hdirty
  rw [dirtyImage_of_dirty hf hdirty] at h
  cases h

theorem dirtyImage_of_none (h : P.resident[p]? = none) : P.dirtyImage p = none := by
  simp [dirtyImage, h]

theorem dirtyImage_of_clean {f : FrameId} (hf : P.resident[p]? = some f) (hclean : (P.page f).dirty = none) :
    P.dirtyImage p = none := by
  simp [dirtyImage, hf, Page.isClean, hclean]

theorem dirtyAmong_cons (P : Pool δ) (p : PageId) (ps : List PageId) :
    P.dirtyAmong (p :: ps) = (P.dirtyImage p).toList ++ P.dirtyAmong ps := by
  cases hp : P.dirtyImage p with
  | none => exact List.filterMap_cons_none hp
  | some x => exact List.filterMap_cons_some hp

theorem dirtyAmong_append (P : Pool δ) (ps qs : List PageId) :
    P.dirtyAmong (ps ++ qs) = P.dirtyAmong ps ++ P.dirtyAmong qs := List.filterMap_append

/-- The image of a page that was not reworked is what it was. -/
theorem Reworked.dirtyImage_eq {qs : List PageId} {φ : PageId → Page → Page} (h : Reworked P Q qs φ)
    (hP : P.Filed) (hp : p ∉ qs) : Q.dirtyImage p = P.dirtyImage p := by
  rw [dirtyImage, dirtyImage, h.resident]
  cases hf : P.resident[p]? with
  | none => rfl
  | some f => rw [Option.map_some, Option.map_some, h.page_eq hP hf, if_neg hp]

theorem Reworked.dirtyAmong_eq {qs ps : List PageId} {φ : PageId → Page → Page} (h : Reworked P Q qs φ)
    (hP : P.Filed) (hdisj : ∀ p ∈ ps, p ∉ qs) : Q.dirtyAmong ps = P.dirtyAmong ps :=
  List.filterMap_congr fun p hp => h.dirtyImage_eq hP (hdisj p hp)

theorem id_of_dirtyImage (hP : P.Filed) (hx : P.dirtyImage p = some x) : x.id = p := by
  obtain ⟨f, hf, rfl, -⟩ := dirtyImage_eq_some.1 hx
  exact (hP p f hf).2

theorem addTables_dirtyAmong_cons (hP : P.Filed) (written : List TableId) (p : PageId) (ps : List PageId) :
    addTables written (P.dirtyAmong (p :: ps)) =
      addTables (if (P.dirtyImage p).isSome && !written.contains p.table then written ++ [p.table]
        else written) (P.dirtyAmong ps) := by
  rw [dirtyAmong_cons]
  cases hx : P.dirtyImage p with
  | none => rfl
  | some x =>
    show addTables (addTable written x.id.table) _ = _
    rw [id_of_dirtyImage hP hx, addTable]
    cases written.contains p.table <;> rfl

theorem mem_dirtyHeld (hl : P.locks.Consistent) (hP : P.Filed) {t : TxnId} {x : Page} :
    x ∈ P.dirtyHeld t ↔ P.locks.holds x.id t ∧ x.dirty ≠ none ∧
      ∃ f, P.resident[x.id]? = some f ∧ P.page f = x := by
  simp only [dirtyHeld, dirtyAmong, List.mem_filterMap, LockTable.mem_heldPages hl]
  constructor
  · rintro ⟨p, hp, hx⟩
    obtain rfl := id_of_dirtyImage hP hx
    obtain ⟨f, hf, hpage, hdirty⟩ := dirtyImage_eq_some.1 hx
    exact ⟨hp, hdirty, f, hf, hpage⟩
  · rintro ⟨hp, hdirty, f, hf, hpage⟩
    exact ⟨x.id, hp, dirtyImage_eq_some.2 ⟨f, hf, hpage, hdirty⟩⟩

theorem dirtyHeld_ascending (hP : P.Filed) (t : TxnId) :
    (P.dirtyHeld t).Pairwise fun x y => compare x.id y.id = .lt := by
  refine List.pairwise_filterMap.2 ((P.locks.heldPages_ascending t).imp fun hpq x hx y hy => ?_)
  rwa [id_of_dirtyImage hP hx, id_of_dirtyImage hP hy]

theorem reworked_storage (P : Pool δ) (s : δ) (φ : PageId → Page → Page) :
    Reworked P { P with storage := s } [] φ :=
  ⟨rfl, rfl, rfl, fun _ hp => absurd hp List.not_mem_nil, fun _ _ => rfl⟩

end Images

/-! ## Going through the held pages -/

section Commit

variable {δ : Type} [Storage δ] {P : Pool δ}

/-- What a commit does with one cached page: it is clean, or it is written, or the write fails. -/
theorem writeBack_calls (hP : P.Filed) {p : PageId} {f : FrameId} (hf : P.resident[p]? = some f) :
    (∃ W, P.writeBack f = (W, .ok (P.dirtyImage p).isSome) ∧
      Reworked P (W.setPage f (W.page f).capture) [p] committed ∧
      serveAll P.storage ((P.dirtyImage p).toList.map .write) = (W.storage, .ok ())) ∨
    (∃ x s e, P.dirtyImage p = some x ∧ Storage.writePage P.storage x = (s, .error e) ∧
      P.writeBack f = ({ P with storage := s }, .error e)) := by
  cases hdirty : (P.page f).dirty with
  | none =>
    have hcap : (P.page f).capture = committed p (P.page f) := by
      rw [committed, Page.markClean_of_clean hdirty]
    rw [dirtyImage_of_clean hf hdirty]
    refine .inl ⟨P, by simp [writeBack, Page.isClean, hdirty], ?_, rfl⟩
    rw [hcap]
    exact reworked_setPage hP hf committed
  | some u =>
    rw [dirtyImage_of_dirty hf (by simp [hdirty])]
    have hclean : (P.page f).isClean = false := by simp [Page.isClean, hdirty]
    rcases hw : Storage.writePage P.storage (P.page f) with ⟨s, e | ⟨⟩⟩
    · exact .inr ⟨_, s, e, rfl, hw, by simp only [writeBack, hclean, Bool.false_eq_true, if_false, hw]⟩
    · refine .inl ⟨_, by simp only [writeBack, hclean, Bool.false_eq_true, if_false, hw]; rfl, ?_, ?_⟩
      · -- Cleaning the frame and capturing it are one rework.
        have hset := reworked_setPage (P := P) hP hf fun _ x => x.markClean
        have hcap := reworked_setPage (hset.filed hP fun _ _ => rfl) (hset.resident ▸ hf)
          fun _ x => x.capture
        refine ⟨rfl, rfl, hcap.size.trans hset.size, ?_, ?_⟩
        · intro q hq g hg
          exact (hcap.listed q hq g hg).trans (congrArg Page.capture (hset.listed q hq g hg))
        · exact fun g hg => (hcap.other g hg).trans (hset.other g hg)
      · simp only [Option.toList_some, List.map_cons, List.map_nil, serveAll, serve, hw]
        rfl

/-- Where a commit comes to in a list of pages: to the end, or to a page the write of which fails. The pages
that it has been through are settled, and their dirty images written. -/
inductive Sweep (P : Pool δ) (ps : List PageId) : Pool δ → Except Error Unit → Prop
  | finished {R : Pool δ} : Reworked P R ps committed →
      serveAll P.storage ((P.dirtyAmong ps).map .write) = (R.storage, .ok ()) → Sweep P ps R (.ok ())
  | failed {R : Pool δ} {reached rest : List PageId} {p : PageId} {x : Page} {s : δ} {e : Error} :
      ps = reached ++ p :: rest → P.dirtyImage p = some x → Reworked P R reached committed →
      serveAll P.storage ((P.dirtyAmong reached).map .write) = (s, .ok ()) →
      Storage.writePage s x = (R.storage, .error e) → Sweep P ps R (.error e)

/-- One page and then the others. -/
theorem Sweep.cons {Q R : Pool δ} {p : PageId} {ps : List PageId} {r : Except Error Unit} (hP : P.Filed)
    (hp : p ∉ ps) (hone : Reworked P Q [p] committed)
    (hcall : serveAll P.storage ((P.dirtyImage p).toList.map .write) = (Q.storage, .ok ()))
    (h : Sweep Q ps R r) : Sweep P (p :: ps) R r := by
  have hsame : ∀ qs : List PageId, qs ⊆ ps → Q.dirtyAmong qs = P.dirtyAmong qs := fun qs hqs =>
    hone.dirtyAmong_eq hP fun q hq hqp => hp (List.mem_singleton.1 hqp ▸ hqs hq)
  have hcalls : ∀ qs : List PageId, qs ⊆ ps → serveAll P.storage ((P.dirtyAmong (p :: qs)).map .write) =
      serveAll Q.storage ((Q.dirtyAmong qs).map .write) := fun qs hqs => by
    rw [dirtyAmong_cons, List.map_append, serveAll_append hcall, hsame qs hqs]
  cases h with
  | finished hre hok => exact .finished (hone.cons hP hre hp) ((hcalls ps (List.Subset.refl ps)).trans hok)
  | @failed reached rest q x s e hps hx hre hok hfail =>
    subst hps
    have hreached : reached ⊆ reached ++ q :: rest := List.subset_append_left reached _
    have hq : Q.dirtyImage q = P.dirtyImage q :=
      hone.dirtyImage_eq hP fun hqp => hp (List.mem_singleton.1 hqp ▸ by simp)
    exact .failed rfl (hq ▸ hx) (hone.cons hP hre fun hmem => hp (hreached hmem))
      ((hcalls reached hreached).trans hok) hfail

/-- **A commit goes through its list writing the dirty pages and settling every cached one**, up to the end
or up to a page the write of which fails. -/
theorem flushHeldIn_sweep : ∀ (ps : List PageId) (P : Pool δ) (written : List TableId), P.Filed →
    ps.Nodup → ∃ R r, Sweep P ps R r ∧
      P.flushHeldIn written ps = (R, r.map fun _ => addTables written (P.dirtyAmong ps)) := by
  intro ps
  induction ps with
  | nil => exact fun P written _ _ => ⟨P, .ok (), .finished (.refl P _) rfl, rfl⟩
  | cons p ps ih =>
    intro P written hP hnd
    obtain ⟨hp, hnd'⟩ := List.nodup_cons.1 hnd
    rw [addTables_dirtyAmong_cons hP]
    have hgoOn : ∀ Q : Pool δ, Reworked P Q [p] committed → Q.dirtyAmong ps = P.dirtyAmong ps :=
      fun Q hone => hone.dirtyAmong_eq hP fun q hq hqp => hp (List.mem_singleton.1 hqp ▸ hq)
    cases hf : P.resident[p]? with
    | none =>
      obtain ⟨R, r, hsweep, hflush⟩ := ih P written hP hnd'
      refine ⟨R, r, hsweep.cons hP hp (reworked_of_none hf committed) ?_, ?_⟩
      · rw [dirtyImage_of_none hf]
        rfl
      · simp only [flushHeldIn, hf, hflush, dirtyImage_of_none hf, Option.isSome_none, Bool.false_and,
          Bool.false_eq_true, if_false]
    | some f =>
      rcases writeBack_calls hP hf with ⟨W, hW, hone, hcall⟩ | ⟨x, s, e, hx, hfail, hW⟩
      · obtain ⟨R, r, hsweep, hflush⟩ := ih (W.setPage f (W.page f).capture)
          (if (P.dirtyImage p).isSome && !written.contains p.table then written ++ [p.table] else written)
          (hone.filed hP fun _ _ => rfl) hnd'
        refine ⟨R, r, hsweep.cons hP hp hone hcall, ?_⟩
        rw [hgoOn _ hone] at hflush
        simp only [flushHeldIn, hf, hW, hflush]
      · refine ⟨_, .error e, .failed (List.nil_append _).symm hx (reworked_storage P s _) rfl hfail, ?_⟩
        simp only [flushHeldIn, hf, hW, Except.map]

theorem syncTables_calls : ∀ (ts : List TableId) (P : Pool δ),
    P.syncTables ts = ({ P with storage := (serveAll P.storage (ts.map .sync)).1 },
      (serveAll P.storage (ts.map .sync)).2) := by
  intro ts
  induction ts with
  | nil => exact fun P => rfl
  | cons t ts ih =>
    intro P
    rw [List.map_cons, serveAll, serve, syncTables]
    dsimp only
    rcases hs : Storage.syncTable P.storage t with ⟨s, e | ⟨⟩⟩
    · rfl
    · exact ih { P with storage := s }

/-- What a commit does to the pool before it releases the locks. -/
theorem flushHeld_calls (hP : P.Filed) (t : TxnId) :
    ∃ R r, Sweep P (P.locks.heldPages t) R r ∧ P.flushHeld t =
      ({ R with storage := (serveAll P.storage (P.commitCalls t)).1 },
        (serveAll P.storage (P.commitCalls t)).2) := by
  obtain ⟨R, r, hsweep, hflush⟩ := flushHeldIn_sweep (P.locks.heldPages t) P [] hP (P.locks.heldPages_nodup t)
  refine ⟨R, r, hsweep, ?_⟩
  rw [flushHeld, hflush, commitCalls]
  cases hsweep with
  | finished hre hok =>
    rw [dirtyHeld, serveAll_append hok]
    exact syncTables_calls _ R
  | @failed reached rest q x s e hps hx hre hok hfail =>
    have hstop : serveAll P.storage ((P.dirtyHeld t).map .write) = (R.storage, .error e) := by
      rw [dirtyHeld, hps, dirtyAmong_append, List.map_append, dirtyAmong_cons, hx]
      exact serveAll_stops (c := .write x) hok hfail _
    rw [serveAll_append_of_error hstop]
    rfl

/-! ## The whole commit -/

/-- What a commit of `t` does, exactly. -/
structure CommitsExactly (P : Pool δ) (t : TxnId) : Prop where
  /-- It makes its calls in order, up to the first that fails, and gives the failure of that one. -/
  calls : serveAll P.storage (P.commitCalls t) =
    ((P.complete t true).1.storage, (P.complete t true).2)
  /-- The pages that are written are the dirty ones that it holds, -/
  written : ∀ x, x ∈ P.dirtyHeld t ↔ P.locks.holds x.id t ∧ x.dirty ≠ none ∧
    ∃ f, P.resident[x.id]? = some f ∧ P.page f = x
  /-- each once, in the order of pages. -/
  order : (P.dirtyHeld t).Pairwise fun x y => compare x.id y.id = .lt
  /-- The tables that are synced are those of the written pages, -/
  synced : ∀ u, u ∈ P.dirtyTables t ↔ ∃ x ∈ P.dirtyHeld t, x.id.table = u
  /-- each once. -/
  syncedOnce : (P.dirtyTables t).Nodup
  /-- If no write fails, every cached page that it holds is saved, dirty before or not. -/
  saved : ∀ s, serveAll P.storage ((P.dirtyHeld t).map .write) = (s, .ok ()) →
    ∀ p f, P.locks.holds p t → P.resident[p]? = some f →
      (P.complete t true).1.page f = (P.page f).saved
  /-- If a write fails, its failure is given and nothing more is asked of the storage; the cached pages before
  it are saved, and that page and the later ones are as they were. -/
  stopped : ∀ ys x zs s s' e, P.dirtyHeld t = ys ++ x :: zs →
    serveAll P.storage (ys.map .write) = (s, .ok ()) → Storage.writePage s x = (s', .error e) →
    (P.complete t true).2 = .error e ∧ (P.complete t true).1.storage = s' ∧
      ∀ p f, P.locks.holds p t → P.resident[p]? = some f → (P.complete t true).1.page f =
        if compare p x.id = .lt then (P.page f).saved else P.page f
  released : ∀ p, (P.complete t true).1.locks.modeOf p t = none
  others : ∀ p u, u ≠ t → (P.complete t true).1.locks.modeOf p u = P.locks.modeOf p u
  resident : (P.complete t true).1.resident = P.resident
  /-- An image that is cached for no page that it holds is left alone. -/
  unheld : ∀ f, (∀ p, P.locks.holds p t → P.resident[p]? ≠ some f) →
    (P.complete t true).1.page f = P.page f

theorem Sweep.reworked {R : Pool δ} {ps : List PageId} {r : Except Error Unit} (h : Sweep P ps R r) :
    ∃ reached, reached ⊆ ps ∧ Reworked P R reached committed := by
  cases h with
  | finished hre _ => exact ⟨ps, List.Subset.refl ps, hre⟩
  | @failed reached rest q x s e hps hx hre hok hfail =>
    exact ⟨reached, hps ▸ List.subset_append_left reached _, hre⟩

/-- If every write of the list succeeds, the sweep comes to its end. -/
theorem Sweep.finished_of_ok {R : Pool δ} {ps : List PageId} {r : Except Error Unit} {s : δ}
    (h : Sweep P ps R r) (hok : serveAll P.storage ((P.dirtyAmong ps).map .write) = (s, .ok ())) :
    Reworked P R ps committed := by
  cases h with
  | finished hre _ => exact hre
  | @failed reached rest q x s e hps hx hre hreached hfail =>
    rw [hps, dirtyAmong_append, List.map_append, dirtyAmong_cons, hx] at hok
    cases congrArg Prod.snd ((serveAll_stops (c := .write x) hreached hfail _).symm.trans hok)

/-- If a write of the list fails, the sweep comes to its page. -/
theorem Sweep.failed_of_error {R : Pool δ} {ps : List PageId} {r : Except Error Unit} {ys zs : List Page}
    {x : Page} {s s' : δ} {e : Error} (h : Sweep P ps R r) (heq : P.dirtyAmong ps = ys ++ x :: zs)
    (hok : serveAll P.storage (ys.map .write) = (s, .ok ()))
    (hfail : Storage.writePage s x = (s', .error e)) :
    ∃ reached p rest, ps = reached ++ p :: rest ∧ P.dirtyImage p = some x ∧
      Reworked P R reached committed ∧ R.storage = s' ∧ r = .error e := by
  cases h with
  | finished hre hall =>
    rw [heq, List.map_append] at hall
    cases congrArg Prod.snd ((serveAll_stops (c := .write x) hok hfail _).symm.trans hall)
  | @failed reached rest q y s₂ e₂ hps hy hre hreached hfail₂ =>
    have hsplit : P.dirtyAmong ps = P.dirtyAmong reached ++ y :: P.dirtyAmong rest := by
      rw [hps, dirtyAmong_append, dirtyAmong_cons, hy]
      rfl
    have hcalls := congrArg (List.map StorageCall.write) (heq.symm.trans hsplit)
    rw [List.map_append, List.map_append] at hcalls
    obtain ⟨hys, hx⟩ := first_failure_unique hcalls hok (c := .write x) hfail hreached hfail₂
    obtain rfl := StorageCall.write.inj hx
    rw [hys, hreached] at hok
    obtain rfl := congrArg Prod.fst hok
    rw [hfail₂, Prod.mk.injEq, Except.error.injEq] at hfail
    exact ⟨reached, q, rest, hps, hy, hre, hfail.1, by rw [hfail.2]⟩

/-- The pool after a commit: its pages are where the sweep left them, and its locks are given back. -/
theorem complete_calls (hl : P.locks.Consistent) (hP : P.Filed) (t : TxnId) :
    ∃ R r, Sweep P (P.locks.heldPages t) R r ∧ P.complete t true =
      (countEnd { R with
          storage := (serveAll P.storage (P.commitCalls t)).1
          locks := (P.locks.releaseAll t).1 } true,
        (serveAll P.storage (P.commitCalls t)).2) := by
  obtain ⟨R, r, hsweep, hflush⟩ := flushHeld_calls hP t
  obtain ⟨reached, -, hre⟩ := hsweep.reworked
  refine ⟨R, r, hsweep, ?_⟩
  have hsettle : P.settlePages t true = P.flushHeld t := rfl
  simp only [complete, hsettle, hflush, releaseAll, hre.locks, (LockTable.releaseAll_spec hl t).1]
  cases (serveAll P.storage (P.commitCalls t)).2 <;> rfl

/-- **A commit, exactly**, over any storage and whatever its calls come to. -/
theorem commits_exactly (hl : P.locks.Consistent) (hP : P.Filed) (t : TxnId) : CommitsExactly P t := by
  obtain ⟨R, r, hsweep, hcomplete⟩ := complete_calls hl hP t
  obtain ⟨reached, hsub, hre⟩ := hsweep.reworked
  have hpage : ∀ f, (P.complete t true).1.page f = R.page f := fun f => by
    rw [hcomplete]
    rfl
  have hheld : ∀ p, p ∈ P.locks.heldPages t ↔ P.locks.holds p t := fun p => LockTable.mem_heldPages hl
  refine ⟨?_, fun x => mem_dirtyHeld hl hP, dirtyHeld_ascending hP t, fun u => ?_,
    addTables_nodup _ [] List.nodup_nil, fun s hok p f hp hf => ?_,
    fun ys x zs s s' e heq hok hfail => ?_, fun p => ?_, fun p u hu => ?_, ?_, fun f hf => ?_⟩
  · rw [hcomplete]
    rfl
  · rw [dirtyTables, mem_addTables]
    simp
  · rw [hpage]
    exact (hsweep.finished_of_ok hok).listed p ((hheld p).2 hp) f hf
  · obtain ⟨reached, q, rest, hps, hx, hre, hstore, rfl⟩ := hsweep.failed_of_error heq hok hfail
    have hcalls : serveAll P.storage (P.commitCalls t) = (R.storage, .error e) := by
      rw [commitCalls, heq, List.map_append]
      exact serveAll_append_of_error (serveAll_stops (c := .write x) hok (hstore ▸ hfail) _) _
    rw [id_of_dirtyImage hP hx]
    refine ⟨by rw [hcomplete, hcalls], by rw [hcomplete, hcalls, ← hstore]; rfl, fun p f hp hf => ?_⟩
    have hbefore := PageId.mem_before_iff (P.locks.heldPages_ascending t) hps ((hheld p).2 hp)
    rw [hpage, hre.page_eq hP hf]
    simp only [hbefore]
    rfl
  · rw [hcomplete]
    exact ((LockTable.releaseAll_spec hl t).2 p t).trans (if_pos rfl)
  · rw [hcomplete]
    exact ((LockTable.releaseAll_spec hl t).2 p u).trans (if_neg hu)
  · rw [hcomplete]
    exact hre.resident
  · rw [hpage]
    exact hre.other f fun p hp => hf p ((hheld p).1 (hsub hp))

end Commit

/-- Transaction 1 holds the two pages of a table: it has dirtied the first and has read the second. -/
def pairPool : Pool Tables where
  capacity := 2
  storage := Tables.register
    { disk := Disk.put {} "t" { file := .memory { bytes := Bytes.zeros (2 * pageSize) } } }
    (.heap ⟨⟨1⟩, { name := "t" }, ⟨16, by decide, by decide, by decide, by decide⟩⟩)
  locks := ((LockTable.empty.attempt ⟨⟨1⟩, 0⟩ ⟨1⟩ .exclusive).1.attempt ⟨⟨1⟩, 1⟩ ⟨1⟩ .shared).1
  frames := #[(Page.empty ⟨⟨1⟩, 0⟩).markDirty ⟨1⟩, Page.empty ⟨⟨1⟩, 1⟩]
  resident := ((∅ : ExtTreeMap PageId FrameId).insert ⟨⟨1⟩, 0⟩ ⟨0⟩).insert ⟨⟨1⟩, 1⟩ ⟨1⟩
  draws := Draws.ofSeed 7

theorem pairPool_filed : pairPool.Filed := by
  intro p f hf
  simp only [pairPool, ExtTreeMap.getElem?_insert, Std.compare_eq_iff_eq] at hf
  split at hf
  · rename_i hp
    obtain rfl := Option.some.inj hf
    exact ⟨by decide, hp⟩
  · split at hf
    · rename_i hp
      obtain rfl := Option.some.inj hf
      exact ⟨by decide, hp⟩
    · simp at hf

theorem commits_exactly_pair :
    pairPool.locks.Consistent ∧ pairPool.Filed ∧ CommitsExactly pairPool ⟨1⟩ :=
  have hlocks : pairPool.locks.Consistent :=
    (LockTable.consistent_empty.attempt _ _ _).attempt _ _ _
  ⟨hlocks, pairPool_filed, commits_exactly hlocks pairPool_filed ⟨1⟩⟩

end Pool

end PageEngine
