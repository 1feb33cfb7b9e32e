import PageEngine.Proofs.Pool.Alike

/-!
# `Proofs/Pool/Metering.lean` — what the counters of a pool count

What an operation does can be told without the counters. A storage is **metered** if it counts the pages
that were written to it; a pool does over a metered storage what it does over the storage itself
(`CacheOp.run_metered`), so the meter tells how many writes of an operation succeeded. Which page it caches
or drops is seen from the cache before it and from its result.

> **every operation adds to the counters what it did**, also one that fails half way, and the pages that
> came in are those that are cached, evicted or discarded.

Nothing is assumed of the storage, of the images or of the size of the cache: `CacheOp.counts_run` holds of
any operation on any pool.
-/

set_option autoImplicit false

namespace PageEngine

open Std

/-! ## Metered storages -/

/-- A storage that counts the pages that were written to it. -/
structure Metered (δ : Type) where
  inner : δ
  writes : Nat

namespace Metered

variable {δ : Type} [Storage δ]

instance : Storage (Metered δ) where
  readPage s p := match Storage.readPage s.inner p with
    | (d, r) => ({ s with inner := d }, r)
  writePage s x := match Storage.writePage s.inner x with
    | (d, .error e) => ({ s with inner := d }, .error e)
    | (d, .ok ()) => (⟨d, s.writes + 1⟩, .ok ())
  syncTable s t := match Storage.syncTable s.inner t with
    | (d, r) => ({ s with inner := d }, r)

variable {s d : δ} {n : Nat}

theorem readPage_eq {p : PageId} {r : Except Error Page} (h : Storage.readPage s p = (d, r)) :
    Storage.readPage (⟨s, n⟩ : Metered δ) p = (⟨d, n⟩, r) := by
  simp only [Storage.readPage, h]

theorem writePage_of_error {x : Page} {e : Error} (h : Storage.writePage s x = (d, .error e)) :
    Storage.writePage (⟨s, n⟩ : Metered δ) x = (⟨d, n⟩, .error e) := by
  simp only [Storage.writePage, h]

theorem writePage_of_ok {x : Page} (h : Storage.writePage s x = (d, .ok ())) :
    Storage.writePage (⟨s, n⟩ : Metered δ) x = (⟨d, n + 1⟩, .ok ()) := by
  simp only [Storage.writePage, h]

theorem syncTable_eq {t : TableId} {r : Except Error Unit} (h : Storage.syncTable s t = (d, r)) :
    Storage.syncTable (⟨s, n⟩ : Metered δ) t = (⟨d, n⟩, r) := by
  simp only [Storage.syncTable, h]

end Metered

/-! ## Pools over metered storages -/

namespace Counters

/-- The counters after a lookup in the cache. -/
def looked (c : Counters) (hit : Bool) : Counters :=
  if hit then { c with hits := c.hits + 1 } else { c with misses := c.misses + 1 }

variable (c : Counters) (hit : Bool)

theorem lookups_looked : (c.looked hit).hits + (c.looked hit).misses = c.hits + c.misses + 1 := by
  cases hit
  · rfl
  · exact Nat.add_right_comm _ _ _

@[simp] theorem evictions_looked : (c.looked hit).evictions = c.evictions := by cases hit <;> rfl
@[simp] theorem writebacks_looked : (c.looked hit).writebacks = c.writebacks := by cases hit <;> rfl
@[simp] theorem commits_looked : (c.looked hit).commits = c.commits := by cases hit <;> rfl
@[simp] theorem aborts_looked : (c.looked hit).aborts = c.aborts := by cases hit <;> rfl

end Counters

namespace Pool

section Metering

variable {δ : Type} {P Q R : Pool δ} {j k : Nat}

/-- The pool over its storage with a meter that shows `n`. -/
def metered (P : Pool δ) (n : Nat) : Pool (Metered δ) := P.withStorage ⟨P.storage, n⟩

/-- The pools have the same pages in their caches and differ in no counter but that of the written pages,
which is `k` more. -/
structure Wrote (k : Nat) (P Q : Pool δ) : Prop where
  resident : Q.resident = P.resident
  counters : Q.counters = { P.counters with writebacks := P.counters.writebacks + k }

theorem wrote_nothing (hr : Q.resident = P.resident) (hc : Q.counters = P.counters) : Wrote 0 P Q :=
  ⟨hr, hc⟩

theorem Wrote.trans (h : Wrote j P Q) (h' : Wrote k Q R) : Wrote (j + k) P R where
  resident := h'.resident.trans h.resident
  counters := by rw [h'.counters, h.counters, Nat.add_assoc]

/-- Bringing pages back is nothing to count. -/
theorem restorePages_metered (t : TxnId) (ps : List PageId) : ∀ P : Pool δ,
    Wrote 0 P (ps.foldl (fun P p => P.restorePage t p) P) ∧
      ∀ n, ps.foldl (fun P p => P.restorePage t p) (P.metered n) =
        (ps.foldl (fun P p => P.restorePage t p) P).metered n := by
  induction ps with
  | nil => exact fun P => ⟨wrote_nothing rfl rfl, fun n => rfl⟩
  | cons p ps ih =>
    intro P
    have hone : Wrote 0 P (P.restorePage t p) ∧
        ∀ n, (P.metered n).restorePage t p = (P.restorePage t p).metered n := by
      have hlocks : ∀ n, (P.metered n).locks = P.locks := fun _ => rfl
      have hresident : ∀ n, (P.metered n).resident = P.resident := fun _ => rfl
      simp only [restorePage, hlocks, hresident]
      split
      · split
        · exact ⟨wrote_nothing rfl rfl, fun n => rfl⟩
        · exact ⟨wrote_nothing rfl rfl, fun n => rfl⟩
      · exact ⟨wrote_nothing rfl rfl, fun n => rfl⟩
    obtain ⟨hw, hm⟩ := ih (P.restorePage t p)
    simp only [List.foldl_cons, hone.2]
    exact ⟨hone.1.trans hw, hm⟩

/-! ## Pages that come and go -/

theorem isResident_eq (P : Pool δ) (p : PageId) : P.isResident p = P.resident[p]?.isSome :=
  ExtTreeMap.contains_eq_isSome_getElem?

theorem mem_residentPages_iff {p : PageId} : p ∈ P.residentPages ↔ P.isResident p := by
  rw [mem_residentPages, isResident_eq]

/-- The cached pages of `P` that are not cached by `Q`. -/
def lost (P Q : Pool δ) : List PageId := P.residentPages.filter fun p => !Q.isResident p

theorem lost_of_kept (h : ∀ p, P.isResident p → Q.isResident p) : P.lost Q = [] := by
  refine List.filter_eq_nil_iff.2 fun p hp => ?_
  rw [h p (mem_residentPages_iff.1 hp)]
  exact Bool.false_ne_true

/-- Where no page comes in, a cache is smaller by the pages that it lost. -/
theorem length_lost (h : ∀ p, Q.isResident p → P.isResident p) :
    Q.resident.size + (P.lost Q).length = P.resident.size := by
  have hkept : (P.residentPages.filter Q.isResident).Perm Q.residentPages := by
    refine (List.perm_ext_iff_of_nodup (P.nodup_residentPages.filter _) Q.nodup_residentPages).2 fun p => ?_
    rw [List.mem_filter, mem_residentPages_iff, mem_residentPages_iff]
    exact ⟨And.right, fun hp => ⟨h p hp, hp⟩⟩
  rw [← length_residentPages Q, ← hkept.length_eq, ← length_residentPages P]
  exact (List.length_eq_length_filter_add Q.isResident).symm

theorem size_discard (P : Pool δ) (p : PageId) :
    (P.discard p).resident.size + (if P.isResident p then 1 else 0) = P.resident.size := by
  rw [discard, ExtTreeMap.size_erase, isResident]
  split
  · rename_i hp
    have hpos : P.resident.size ≠ 0 := fun hzero => by
      rw [ExtTreeMap.eq_empty_iff_size_eq_zero.2 hzero] at hp
      simp at hp
    omega
  · rfl

theorem Shrunk.resident_of_none (h : Shrunk P Q) {p : PageId} (hp : P.resident[p]? = none) :
    Q.resident[p]? = none := by
  cases hq : Q.resident[p]? with
  | none => rfl
  | some f => exact (h.resident_of_some hq).symm.trans hp

/-- `Q` is `P` after `n` pages were evicted, as far as it is counted. -/
structure Thinned (n : Nat) (P Q : Pool δ) : Prop where
  size : Q.resident.size + n = P.resident.size
  counters : Q.counters = { P.counters with evictions := P.counters.evictions + n }

theorem Thinned.trans (h : Thinned j P Q) (h' : Thinned k Q R) : Thinned (j + k) P R where
  size := by
    have := h.size
    have := h'.size
    omega
  counters := by rw [h'.counters, h.counters, Nat.add_assoc]

/-- `Q` is `P` after `added` pages came in and others were evicted, as far as it is counted. -/
structure Turnover (added : Nat) (P Q : Pool δ) : Prop where
  size : Q.resident.size + (P.lost Q).length = P.resident.size + added
  counters : Q.counters = { P.counters with evictions := P.counters.evictions + (P.lost Q).length }

theorem turnover_of_kept (h : ∀ p, P.isResident p → Q.isResident p)
    (hsize : Q.resident.size = P.resident.size) (hc : Q.counters = P.counters) : Turnover 0 P Q := by
  have hlost : (P.lost Q).length = 0 := congrArg List.length (lost_of_kept h)
  constructor
  · rw [hlost, hsize]
  · rw [hlost, hc]
    rfl

theorem turnover_of_same (hr : Q.resident = P.resident) (hc : Q.counters = P.counters) : Turnover 0 P Q :=
  turnover_of_kept (fun p hp => by rwa [isResident, hr]) (congrArg ExtTreeMap.size hr) hc

/-- A page takes the place that was made for it. -/
theorem Turnover.cache (h : Turnover 0 P Q) (hs : Shrunk P Q) {p : PageId} (hp : P.resident[p]? = none)
    (f : FrameId) : Turnover 1 P (Q.cache p f) := by
  have hnot : ¬Q.isResident p := by
    rw [isResident_eq, hs.resident_of_none hp]
    exact Bool.false_ne_true
  have hsize : (Q.cache p f).resident.size = Q.resident.size + 1 := by
    rw [Pool.cache, ExtTreeMap.size_insert]
    exact if_neg hnot
  have hlost : P.lost (Q.cache p f) = P.lost Q := by
    refine List.filter_congr fun q hq => ?_
    have hqp : q ≠ p := by
      rintro rfl
      rw [mem_residentPages, hp] at hq
      cases hq
    rw [isResident_eq, isResident_eq, resident_cache, if_neg hqp]
  constructor
  · rw [hlost, hsize, Nat.add_right_comm, h.size]
  · rw [hlost]
    exact h.counters

variable [Storage δ]

/-! ## Writing -/

theorem writeBack_of_unwritten {f : FrameId} {s : δ} {e : Error} (hdirty : ¬(P.page f).isClean)
    (hr : Storage.writePage P.storage (P.page f) = (s, .error e)) :
    P.writeBack f = ({ P with storage := s }, .error e) := by
  simp only [writeBack, hdirty, Bool.false_eq_true, if_false, hr]

theorem writeBack_of_written {f : FrameId} {s : δ} (hdirty : ¬(P.page f).isClean)
    (hr : Storage.writePage P.storage (P.page f) = (s, .ok ())) :
    P.writeBack f = (({ P with storage := s }.setPage f (P.page f).markClean).tally fun c =>
      { c with writebacks := c.writebacks + 1 }, .ok true) := by
  simp only [writeBack, hdirty, Bool.false_eq_true, if_false, hr]

theorem writeBack_metered (P : Pool δ) (f : FrameId) : ∃ k, Wrote k P (P.writeBack f).1 ∧
    ∀ n, (P.metered n).writeBack f = ((P.writeBack f).1.metered (n + k), (P.writeBack f).2) := by
  by_cases hclean : (P.page f).isClean
  · have hw : P.writeBack f = (P, .ok false) := if_pos hclean
    have hmeter : ∀ n, (P.metered n).writeBack f = (P.metered n, .ok false) := fun n => if_pos hclean
    rw [hw]
    exact ⟨0, wrote_nothing rfl rfl, hmeter⟩
  · rcases hr : Storage.writePage P.storage (P.page f) with ⟨s, e | ⟨⟩⟩
    · rw [writeBack_of_unwritten hclean hr]
      exact ⟨0, wrote_nothing rfl rfl, fun n =>
        writeBack_of_unwritten (P := P.metered n) hclean (Metered.writePage_of_error hr)⟩
    · rw [writeBack_of_written hclean hr]
      exact ⟨1, ⟨rfl, rfl⟩, fun n =>
        writeBack_of_written (P := P.metered n) hclean (Metered.writePage_of_ok hr)⟩

/-- The meter goes up with every page that is written, also before a failure. -/
theorem flushIn_metered (ps : List PageId) : ∀ P : Pool δ, ∃ k, Wrote k P (P.flushIn ps).1 ∧
    ∀ n, (P.metered n).flushIn ps = ((P.flushIn ps).1.metered (n + k), (P.flushIn ps).2) := by
  induction ps with
  | nil => exact fun P => ⟨0, wrote_nothing rfl rfl, fun n => rfl⟩
  | cons p ps ih =>
    intro P
    cases hp : P.resident[p]? with
    | none =>
      have hp' : ∀ n, (P.metered n).resident[p]? = none := fun _ => hp
      obtain ⟨k, hk, hm⟩ := ih P
      simp only [flushIn, hp, hp']
      exact ⟨k, hk, hm⟩
    | some f =>
      have hp' : ∀ n, (P.metered n).resident[p]? = some f := fun _ => hp
      obtain ⟨j, hj, hmeter⟩ := P.writeBack_metered f
      simp only [flushIn, hp, hp', hmeter]
      rcases hQ : P.writeBack f with ⟨Q, e | wrote⟩ <;> rw [hQ] at hj
      · exact ⟨j, hj, fun n => rfl⟩
      · obtain ⟨k, hk, hm⟩ := ih Q
        exact ⟨j + k, hj.trans hk, fun n => (hm (n + j)).trans (by rw [Nat.add_assoc])⟩

theorem flushHeldIn_metered (ps : List PageId) : ∀ (P : Pool δ) (written : List TableId),
    ∃ k, Wrote k P (P.flushHeldIn written ps).1 ∧ ∀ n, (P.metered n).flushHeldIn written ps =
      ((P.flushHeldIn written ps).1.metered (n + k), (P.flushHeldIn written ps).2) := by
  induction ps with
  | nil => exact fun P written => ⟨0, wrote_nothing rfl rfl, fun n => rfl⟩
  | cons p ps ih =>
    intro P written
    cases hp : P.resident[p]? with
    | none =>
      have hp' : ∀ n, (P.metered n).resident[p]? = none := fun _ => hp
      obtain ⟨k, hk, hm⟩ := ih P written
      simp only [flushHeldIn, hp, hp']
      exact ⟨k, hk, hm⟩
    | some f =>
      have hp' : ∀ n, (P.metered n).resident[p]? = some f := fun _ => hp
      obtain ⟨j, hj, hmeter⟩ := P.writeBack_metered f
      simp only [flushHeldIn, hp, hp', hmeter]
      rcases hQ : P.writeBack f with ⟨Q, e | wrote⟩ <;> rw [hQ] at hj
      · exact ⟨j, hj, fun n => rfl⟩
      · obtain ⟨k, hk, hm⟩ := ih (Q.setPage f (Q.page f).capture)
          (if wrote && !written.contains p.table then written ++ [p.table] else written)
        exact ⟨j + k, hj.trans ⟨hk.resident, hk.counters⟩,
          fun n => (hm (n + j)).trans (by rw [Nat.add_assoc])⟩

theorem syncTables_metered (ts : List TableId) : ∀ P : Pool δ, Wrote 0 P (P.syncTables ts).1 ∧
    ∀ n, (P.metered n).syncTables ts = ((P.syncTables ts).1.metered n, (P.syncTables ts).2) := by
  induction ts with
  | nil => exact fun P => ⟨wrote_nothing rfl rfl, fun n => rfl⟩
  | cons t ts ih =>
    intro P
    rcases hr : Storage.syncTable P.storage t with ⟨s, r⟩
    have hr' : ∀ n, Storage.syncTable (P.metered n).storage t = (⟨s, n⟩, r) :=
      fun n => Metered.syncTable_eq hr
    obtain ⟨hw, hm⟩ := ih { P with storage := s }
    simp only [syncTables, hr, hr']
    cases r with
    | error e => exact ⟨wrote_nothing rfl rfl, fun n => rfl⟩
    | ok u => exact ⟨⟨hw.resident, hw.counters⟩, hm⟩

theorem settlePages_metered (P : Pool δ) (t : TxnId) (commit : Bool) :
    ∃ k, Wrote k P (P.settlePages t commit).1 ∧ ∀ n, (P.metered n).settlePages t commit =
      ((P.settlePages t commit).1.metered (n + k), (P.settlePages t commit).2) := by
  cases commit with
  | false =>
    obtain ⟨hw, hm⟩ := restorePages_metered t (P.locks.heldPages t) P
    exact ⟨0, hw, fun n => Prod.ext (hm n) rfl⟩
  | true =>
    have hlocks : ∀ n, (P.metered n).locks = P.locks := fun _ => rfl
    obtain ⟨k, hk, hm⟩ := flushHeldIn_metered (P.locks.heldPages t) P []
    simp only [settlePages, if_true, flushHeld, hlocks, hm]
    rcases hQ : P.flushHeldIn [] (P.locks.heldPages t) with ⟨Q, e | written⟩ <;> rw [hQ] at hk
    · exact ⟨k, hk, fun n => rfl⟩
    · obtain ⟨hw, hsync⟩ := syncTables_metered written Q
      exact ⟨k, hk.trans hw, fun n => hsync (n + k)⟩

/-! ## Making room -/

/-- An eviction counts the page that it drops, and nothing if it drops none. -/
theorem thinned_evict (P : Pool δ) : ∃ n, Thinned n P P.evict.1 := by
  by_cases hempty : P.resident.size = 0
  · rw [evict_of_empty hempty]
    exact ⟨0, rfl, rfl⟩
  · rw [evict_eq (Nat.pos_of_ne_zero hempty)]
    cases hv : P.victim with
    | none => exact ⟨0, rfl, rfl⟩
    | some p => exact ⟨1, size_evicted hv, rfl⟩

theorem thinned_evictMany (m : Nat) : ∀ P : Pool δ, ∃ n, Thinned n P (P.evictMany m).1 := by
  induction m with
  | zero => exact fun P => ⟨0, rfl, rfl⟩
  | succ m ih =>
    intro P
    obtain ⟨j, hj⟩ := P.thinned_evict
    unfold evictMany
    rcases hQ : P.evict with ⟨Q, e | ⟨⟩⟩ <;> rw [hQ] at hj
    · exact ⟨j, hj⟩
    · obtain ⟨k, hk⟩ := ih Q
      exact ⟨j + k, hj.trans hk⟩

theorem turnover_makeRoom (P : Pool δ) : Turnover 0 P P.makeRoom.1 := by
  obtain ⟨n, hn⟩ := thinned_evictMany (P.resident.size + 1 - P.capacity) P
  have hkept : ∀ p, P.makeRoom.1.isResident p → P.isResident p := fun p hp => by
    rw [isResident_eq, Option.isSome_iff_exists] at hp ⊢
    exact hp.imp fun f hf => P.shrunk_makeRoom.resident_of_some hf
  have hlost := length_lost hkept
  have hsize := hn.size
  obtain rfl : (P.lost P.makeRoom.1).length = n := by
    rw [makeRoom] at hlost ⊢
    omega
  exact ⟨hlost, hn.counters⟩

/-- **A fetch counts whether the page was cached**, and brings in one page if it succeeds with one that was
not. -/
theorem turnover_fetch (P : Pool δ) (p : PageId) :
    Turnover (if !P.isResident p && (P.fetch p).2.isOk then 1 else 0)
      (P.tally (·.looked (P.isResident p))) (P.fetch p).1 := by
  rw [isResident_eq]
  cases hp : P.resident[p]? with
  | some f =>
    rw [fetch_of_resident hp]
    exact turnover_of_same rfl rfl
  | none =>
    rcases hr : Storage.readPage P.storage p with ⟨s, e | x⟩
    · rw [fetch_of_unread hp hr]
      exact turnover_of_same rfl rfl
    · have hroom := (P.missed s).turnover_makeRoom
      have hshrunk := (P.missed s).shrunk_makeRoom
      rw [fetch_of_read hp hr]
      rcases hR : (P.missed s).makeRoom with ⟨R, e | ⟨⟩⟩ <;> rw [hR] at hroom hshrunk
      · exact ⟨hroom.size, hroom.counters⟩
      · have hcached := hroom.cache hshrunk hp R.nextFrame
        exact ⟨hcached.size, hcached.counters⟩

/-- An install brings in one page if it succeeds with one that was not cached. -/
theorem turnover_install (P : Pool δ) (t : TxnId) (f : FrameId) :
    Turnover (if !P.isResident (P.page f).id && (P.install t f).2.isOk then 1 else 0) P
      (P.install t f).1 := by
  rw [isResident_eq]
  cases hr : P.resident[(P.page f).id]? with
  | none =>
    rw [install_of_none hr, takeIn]
    have hroom := (P.setPage f ((P.page f).markDirty t)).turnover_makeRoom
    have hshrunk := (P.setPage f ((P.page f).markDirty t)).shrunk_makeRoom
    rcases hR : (P.setPage f ((P.page f).markDirty t)).makeRoom with ⟨R, e | ⟨⟩⟩ <;> rw [hR] at hroom hshrunk
    · exact ⟨hroom.size, hroom.counters⟩
    · have hcached := hroom.cache hshrunk hr f
      exact ⟨hcached.size, hcached.counters⟩
  | some g =>
    by_cases hg : g = f
    · subst hg
      rw [install_of_resident hr]
      exact turnover_of_same rfl rfl
    · rw [install_of_other hr hg]
      have hsize := size_cache_of_some (R := P.setPage f ((P.page f).markDirty t)) hr f
      refine turnover_of_kept (fun p hp => ?_) hsize rfl
      rw [isResident_eq, resident_cache]
      split
      · rfl
      · rwa [isResident_eq] at hp

/-! ## Other storages -/

/-- Making room does not reach the meter. -/
theorem makeRoom_metered (P : Pool δ) (n : Nat) :
    (P.metered n).makeRoom = (P.makeRoom.1.metered n, P.makeRoom.2) := by
  rw [metered, makeRoom_withStorage, metered, P.shrunk_makeRoom.storage]

theorem fetch_metered (P : Pool δ) (p : PageId) (n : Nat) :
    (P.metered n).fetch p = ((P.fetch p).1.metered n, (P.fetch p).2) := by
  cases hp : P.resident[p]? with
  | some f =>
    rw [fetch_of_resident hp]
    exact fetch_of_resident (P := P.metered n) hp
  | none =>
    rcases hr : Storage.readPage P.storage p with ⟨s, e | x⟩
    · rw [fetch_of_unread hp hr]
      exact fetch_of_unread (P := P.metered n) hp (Metered.readPage_eq hr)
    · have hmissed : (P.metered n).missed ⟨s, n⟩ = (P.missed s).metered n := rfl
      rw [fetch_of_read hp hr, fetch_of_read (P := P.metered n) hp (Metered.readPage_eq hr), hmissed,
        makeRoom_metered]
      rcases (P.missed s).makeRoom with ⟨R, e | ⟨⟩⟩ <;> rfl

theorem takeIn_metered (P : Pool δ) (p : PageId) (f : FrameId) (n : Nat) :
    (P.metered n).takeIn p f = ((P.takeIn p f).1.metered n, (P.takeIn p f).2) := by
  rw [takeIn, takeIn, makeRoom_metered]
  rcases P.makeRoom with ⟨R, e | ⟨⟩⟩ <;> rfl

theorem install_metered (P : Pool δ) (t : TxnId) (f : FrameId) (n : Nat) :
    (P.metered n).install t f = ((P.install t f).1.metered n, (P.install t f).2) := by
  have hpage : (P.metered n).page f = P.page f := rfl
  cases hr : P.resident[(P.page f).id]? with
  | none =>
    rw [install_of_none hr, install_of_none (P := P.metered n) hr, hpage]
    exact takeIn_metered (P.setPage f ((P.page f).markDirty t)) (P.page f).id f n
  | some g =>
    by_cases hg : g = f
    · subst hg
      rw [install_of_resident hr, install_of_resident (P := P.metered n) hr]
      rfl
    · rw [install_of_other hr hg, install_of_other (P := P.metered n) hr hg]
      rfl

end Metering

end Pool

/-! ## Operations -/

namespace CacheOp

variable {δ : Type}

/-- The operation over a storage with a meter that shows `n`. -/
def metered (n : Nat) : CacheOp δ → CacheOp (Metered δ)
  | fetch p => .fetch p
  | install t f => .install t f
  | flush ps => .flush ps
  | settle t commit => .settle t commit
  | discard p => .discard p
  | countEnd commit => .countEnd commit
  | relock L => .relock L
  | touch f x => .touch f x
  | make x => .make x
  | restock s => .restock ⟨s, n⟩

/-- The number of lookups in the cache that an operation is. -/
def lookups : CacheOp δ → Nat
  | fetch _ => 1
  | _ => 0

/-- The number of commits or of aborts that an operation counts. -/
def ends (commit : Bool) : CacheOp δ → Nat
  | countEnd c => if c = commit then 1 else 0
  | _ => 0

/-- The number of cached pages that an operation discards. -/
def discarded (P : Pool δ) : CacheOp δ → Nat
  | discard p => if P.isResident p then 1 else 0
  | _ => 0

variable [Storage δ]

/-- The number of cached pages that leave the cache in an operation that does not discard them. -/
def evicted (P : Pool δ) : CacheOp δ → Nat
  | discard _ => 0
  | o => (P.lost (o.run P)).length

/-- The number of pages that an operation writes to the storage: what a meter shows after it. -/
def written (P : Pool δ) (o : CacheOp δ) : Nat := ((o.metered 0).run (P.metered 0)).storage.writes

/-- The number of pages that an operation reads into the cache. -/
def faults (P : Pool δ) : CacheOp δ → Nat
  | fetch p => if !P.isResident p && (P.fetch p).2.isOk then 1 else 0
  | _ => 0

/-- The number of pages that an operation caches with an image that a store has changed, where there was
none of them. -/
def installed (P : Pool δ) : CacheOp δ → Nat
  | install t f => if !P.isResident (P.page f).id && (P.install t f).2.isOk then 1 else 0
  | _ => 0

/-- **A pool does over a metered storage what it does over the storage itself**, and the meter goes up as
the counter of the written pages does. -/
theorem run_metered (P : Pool δ) (o : CacheOp δ) :
    (o.run P).counters.writebacks = P.counters.writebacks + o.written P ∧
      ∀ n, (o.metered n).run (P.metered n) = (o.run P).metered (n + o.written P) := by
  -- It is enough to know by how much the meter goes up: `written` is what it shows from zero.
  suffices h : ∃ k, (o.run P).counters.writebacks = P.counters.writebacks + k ∧
      ∀ n, (o.metered n).run (P.metered n) = (o.run P).metered (n + k) by
    obtain ⟨k, hk, hm⟩ := h
    have hwritten : o.written P = k := by
      rw [written, hm 0]
      exact Nat.zero_add k
    rw [hwritten]
    exact ⟨hk, hm⟩
  cases o with
  | fetch p =>
    exact ⟨0, (congrArg Counters.writebacks (P.turnover_fetch p).counters).trans
      (Counters.writebacks_looked _ _), fun n => congrArg Prod.fst (P.fetch_metered p n)⟩
  | install t f =>
    exact ⟨0, (congrArg Counters.writebacks (P.turnover_install t f).counters :),
      fun n => congrArg Prod.fst (P.install_metered t f n)⟩
  | flush ps =>
    obtain ⟨k, hk, hm⟩ := Pool.flushIn_metered ps P
    exact ⟨k, congrArg Counters.writebacks hk.counters, fun n => congrArg Prod.fst (hm n)⟩
  | settle t commit =>
    obtain ⟨k, hk, hm⟩ := P.settlePages_metered t commit
    exact ⟨k, congrArg Counters.writebacks hk.counters, fun n => congrArg Prod.fst (hm n)⟩
  | countEnd commit =>
    cases commit with
    | true => exact ⟨0, rfl, fun n => rfl⟩
    | false => exact ⟨0, rfl, fun n => rfl⟩
  | discard p => exact ⟨0, rfl, fun n => rfl⟩
  | relock L => exact ⟨0, rfl, fun n => rfl⟩
  | touch f x => exact ⟨0, rfl, fun n => rfl⟩
  | make x => exact ⟨0, rfl, fun n => rfl⟩
  | restock s => exact ⟨0, rfl, fun n => rfl⟩

end CacheOp

/-! ## The counters -/

/-- What happened at a cache, in numbers. -/
structure Traffic where
  /-- Lookups of a page. -/
  lookups : Nat := 0
  /-- Pages that were written to the storage. -/
  written : Nat := 0
  commits : Nat := 0
  aborts : Nat := 0
  /-- Pages that were read into the cache. -/
  faults : Nat := 0
  /-- Pages that came into the cache with an image that a store had changed. -/
  installed : Nat := 0
  /-- Cached pages that were discarded. -/
  discarded : Nat := 0
  /-- Cached pages that left the cache otherwise. -/
  evicted : Nat := 0

namespace Traffic

instance : Add Traffic where
  add σ τ :=
    { lookups := σ.lookups + τ.lookups, written := σ.written + τ.written
      commits := σ.commits + τ.commits, aborts := σ.aborts + τ.aborts
      faults := σ.faults + τ.faults, installed := σ.installed + τ.installed
      discarded := σ.discarded + τ.discarded, evicted := σ.evicted + τ.evicted }

end Traffic

section Counting

variable {δ : Type} {P Q R : Pool δ} {σ τ : Traffic}

/-- The counters have gone up by what happened, and the cache holds the pages that came in less those that
left. -/
structure Pool.Counts (τ : Traffic) (P Q : Pool δ) : Prop where
  lookups : Q.counters.hits + Q.counters.misses = P.counters.hits + P.counters.misses + τ.lookups
  writebacks : Q.counters.writebacks = P.counters.writebacks + τ.written
  commits : Q.counters.commits = P.counters.commits + τ.commits
  aborts : Q.counters.aborts = P.counters.aborts + τ.aborts
  evictions : Q.counters.evictions = P.counters.evictions + τ.evicted
  resident : Q.resident.size + τ.evicted + τ.discarded = P.resident.size + τ.faults + τ.installed

theorem Pool.Counts.trans (h : Pool.Counts σ P Q) (h' : Pool.Counts τ Q R) : Pool.Counts (σ + τ) P R where
  lookups := by rw [h'.lookups, h.lookups]; exact Nat.add_assoc _ _ _
  writebacks := by rw [h'.writebacks, h.writebacks]; exact Nat.add_assoc _ _ _
  commits := by rw [h'.commits, h.commits]; exact Nat.add_assoc _ _ _
  aborts := by rw [h'.aborts, h.aborts]; exact Nat.add_assoc _ _ _
  evictions := by rw [h'.evictions, h.evictions]; exact Nat.add_assoc _ _ _
  resident := by
    have := h.resident
    have := h'.resident
    show _ + (σ.evicted + τ.evicted) + (σ.discarded + τ.discarded) =
      _ + (σ.faults + τ.faults) + (σ.installed + τ.installed)
    omega

/-- Where nothing but writing was done there is nothing else to count. -/
theorem Pool.Wrote.counts {k n : Nat} (h : Pool.Wrote k P Q)
    (hn : Q.counters.writebacks = P.counters.writebacks + n) :
    Pool.Counts { written := n, evicted := (P.lost Q).length } P Q := by
  have hlost : (P.lost Q).length = 0 :=
    congrArg List.length (Pool.lost_of_kept fun p hp => by rwa [Pool.isResident, h.resident])
  refine ⟨?_, hn, ?_, ?_, ?_, ?_⟩
  all_goals simp only [h.counters, h.resident, hlost, Nat.add_zero]

theorem Pool.Wrote.counts_nothing (h : Pool.Wrote 0 P Q) : Pool.Counts {} P Q := by
  have hcounts := h.counts (congrArg Counters.writebacks h.counters)
  rwa [Pool.lost_of_kept fun p hp => by rwa [Pool.isResident, h.resident]] at hcounts

variable [Storage δ]

/-- What happens at the cache in an operation. -/
def CacheOp.traffic (P : Pool δ) (o : CacheOp δ) : Traffic :=
  { lookups := o.lookups, written := o.written P, commits := o.ends true, aborts := o.ends false
    faults := o.faults P, installed := o.installed P, discarded := o.discarded P, evicted := o.evicted P }

/-- **Every operation adds to the counters what it did**, on any pool and also if it fails. -/
theorem CacheOp.counts_run (P : Pool δ) (o : CacheOp δ) : Pool.Counts (o.traffic P) P (o.run P) := by
  have hwritten := (run_metered P o).1
  cases o with
  | fetch p =>
    have hturn := P.turnover_fetch p
    have hcounters : (run P (.fetch p)).counters = _ := hturn.counters
    refine ⟨?_, hwritten, ?_, ?_, ?_, hturn.size⟩
    · rw [hcounters]
      exact Counters.lookups_looked _ _
    · rw [hcounters]
      exact Counters.commits_looked _ _
    · rw [hcounters]
      exact Counters.aborts_looked _ _
    · rw [hcounters]
      exact congrArg (· + _) (Counters.evictions_looked _ _)
  | install t f =>
    have hturn := P.turnover_install t f
    have hcounters : (run P (.install t f)).counters = _ := hturn.counters
    refine ⟨?_, hwritten, ?_, ?_, ?_, hturn.size⟩
    all_goals
      rw [hcounters]
      rfl
  | flush ps =>
    obtain ⟨k, hk, -⟩ := Pool.flushIn_metered ps P
    exact hk.counts hwritten
  | settle t commit =>
    obtain ⟨k, hk, -⟩ := P.settlePages_metered t commit
    exact hk.counts hwritten
  | discard p => exact ⟨rfl, hwritten, rfl, rfl, rfl, P.size_discard p⟩
  | countEnd commit =>
    have hlost : (P.lost (P.countEnd commit)).length = 0 :=
      congrArg List.length (Pool.lost_of_kept fun _ hp => hp)
    cases commit with
    | true => exact ⟨rfl, hwritten, rfl, rfl, congrArg (_ + ·) hlost.symm, congrArg (_ + · + 0) hlost⟩
    | false => exact ⟨rfl, hwritten, rfl, rfl, congrArg (_ + ·) hlost.symm, congrArg (_ + · + 0) hlost⟩
  | relock L => exact (Pool.wrote_nothing (P := P) (Q := run P (.relock L)) rfl rfl).counts hwritten
  | touch f x => exact (Pool.wrote_nothing (P := P) (Q := run P (.touch f x)) rfl rfl).counts hwritten
  | make x => exact (Pool.wrote_nothing (P := P) (Q := run P (.make x)) rfl rfl).counts hwritten
  | restock s => exact (Pool.wrote_nothing (P := P) (Q := run P (.restock s)) rfl rfl).counts hwritten

end Counting

end PageEngine
