import PageEngine.Proofs.Pool.Commit

/-!
# `Proofs/Pool/Room.lean` — when there is room, and whom it costs

A cache that is not fuller than it may be has to evict at most one page to take in another. So whether
there is room can be said without the choice of the victim:

> **room can be made unless every place of the cache is taken by a dirty page**.

Which clean page goes depends on the choices drawn, and nothing depends on the storage: making room asks
nothing of it (`makeRoom_withStorage`).
-/

set_option autoImplicit false

namespace PageEngine

open Std

namespace Pool

section Room

variable {δ : Type}

/-- Every place of the cache is taken by a dirty page. -/
structure Clogged (P : Pool δ) : Prop where
  full : P.capacity ≤ P.resident.size
  dirty : ∀ (p : PageId) (f : FrameId), P.resident[p]? = some f → (P.page f).dirty ≠ none

variable {P : Pool δ}

theorem mem_resident {p : PageId} {f : FrameId} (h : P.resident[p]? = some f) : p ∈ P.resident := by
  rw [← ExtTreeMap.isSome_getElem?_iff_mem, h]
  rfl

theorem mem_residentPages {p : PageId} : p ∈ P.residentPages ↔ (P.resident[p]?).isSome := by
  rw [residentPages, ExtTreeMap.mem_keys, ExtTreeMap.isSome_getElem?_iff_mem]

theorem length_residentPages (P : Pool δ) : P.residentPages.length = P.resident.size :=
  ExtTreeMap.length_keys

theorem mem_rotateLeft {α : Type} {x : α} {xs : List α} (h : x ∈ xs) (n : Nat) : x ∈ xs.rotateLeft n := by
  unfold List.rotateLeft
  dsimp only
  split
  · exact h
  · rw [← List.take_append_drop (n % xs.length) xs] at h
    exact List.mem_append.2 (List.mem_append.1 h).symm

/-! ## Evicting a page -/

/-- The page that the next eviction drops, if there is a clean one. -/
def victim (P : Pool δ) : Option PageId :=
  (P.residentPages.rotateLeft (P.draws.below P.residentPages.length).1).find? P.evictable

/-- The pool after a choice is drawn. -/
def drawn (P : Pool δ) : Pool δ := { P with draws := (P.draws.below P.residentPages.length).2 }

/-- The pool after a page is evicted. -/
def evicted (P : Pool δ) (p : PageId) : Pool δ :=
  (P.drawn.discard p).tally fun c => { c with evictions := c.evictions + 1 }

theorem victim_clean {p : PageId} (h : P.victim = some p) :
    ∃ f, P.resident[p]? = some f ∧ (P.page f).dirty = none :=
  evictable_iff.1 (List.find?_some h)

theorem victim_eq_none : P.victim = none ↔
    ∀ (p : PageId) (f : FrameId), P.resident[p]? = some f → (P.page f).dirty ≠ none := by
  constructor
  · intro hnone p f hf hclean
    have hmem : p ∈ P.residentPages := mem_residentPages.2 (by rw [hf]; rfl)
    exact List.find?_eq_none.1 hnone p (mem_rotateLeft hmem _) (evictable_iff.2 ⟨f, hf, hclean⟩)
  · intro hdirty
    refine List.find?_eq_none.2 fun p _ hp => ?_
    obtain ⟨f, hf, hclean⟩ := evictable_iff.1 hp
    exact hdirty p f hf hclean

theorem size_evicted {p : PageId} (h : P.victim = some p) :
    (P.evicted p).resident.size + 1 = P.resident.size := by
  obtain ⟨f, hf, -⟩ := victim_clean h
  have hmem := mem_resident hf
  have hpos : 0 < P.resident.size := by
    rw [← length_residentPages]
    exact List.length_pos_of_mem (ExtTreeMap.mem_keys.2 hmem)
  show (P.resident.erase p).size + 1 = P.resident.size
  rw [ExtTreeMap.size_erase, if_pos (ExtTreeMap.contains_iff_mem.2 hmem)]
  omega

variable [Storage δ]

theorem evict_of_empty (h : P.resident.size = 0) : P.evict = (P, .error .nothingToEvict) := by
  have hempty : P.residentPages.isEmpty = true := by
    rw [← length_residentPages] at h
    simpa using h
  rw [evict]
  exact if_pos hempty

/-- An eviction drops the victim if there is one, and draws a choice either way. -/
theorem evict_eq (hpos : 0 < P.resident.size) :
    P.evict = match P.victim with
      | some p => (P.evicted p, .ok ())
      | none => (P.drawn, .error .everyPageDirty) := by
  have hempty : P.residentPages.isEmpty = false := by
    rw [← length_residentPages] at hpos
    simpa using List.ne_nil_of_length_pos hpos
  cases hv : P.victim with
  | none =>
    have hfind : (P.residentPages.rotateLeft (P.draws.below P.residentPages.length).1).find?
        P.drawn.evictable = none := hv
    simp only [evict, hempty, Bool.false_eq_true, if_false]
    rw [← drawn, hfind]
  | some p =>
    have hfind : (P.residentPages.rotateLeft (P.draws.below P.residentPages.length).1).find?
        P.drawn.evictable = some p := hv
    obtain ⟨f, hf, hclean⟩ := victim_clean hv
    simp only [evict, hempty, Bool.false_eq_true, if_false]
    rw [← drawn, hfind]
    exact evictPage_of_clean (P := P.drawn) hf hclean

/-! ## Making room -/

/-- **Making room**: there is room already, or one clean page is evicted, or every place is taken by a dirty
page and nothing but a choice is used up. -/
theorem makeRoom_cases (hcap : 0 < P.capacity) (hsize : P.resident.size ≤ P.capacity) :
    (P.resident.size < P.capacity ∧ P.makeRoom = (P, .ok ())) ∨
    (∃ p, P.victim = some p ∧ P.makeRoom = (P.evicted p, .ok ())) ∨
    (P.Clogged ∧ P.makeRoom = (P.drawn, .error .everyPageDirty)) := by
  by_cases hroom : P.resident.size < P.capacity
  · exact .inl ⟨hroom, makeRoom_of_lt hroom⟩
  · have hone : P.resident.size + 1 - P.capacity = 1 := by omega
    have hev := evict_eq (P := P) (by omega)
    cases hv : P.victim with
    | some p =>
      refine .inr (.inl ⟨p, rfl, ?_⟩)
      simp only [makeRoom, hone, evictMany, hev, hv]
    | none =>
      refine .inr (.inr ⟨⟨by omega, victim_eq_none.1 hv⟩, ?_⟩)
      simp only [makeRoom, hone, evictMany, hev, hv]

/-! ## Fetching -/

/-- The pool after a page that it does not cache was asked of the storage. -/
def missed (P : Pool δ) (s : δ) : Pool δ :=
  { P.tally fun c => { c with misses := c.misses + 1 } with storage := s }

theorem fetch_of_unread {p : PageId} {s : δ} {e : Error} (hp : P.resident[p]? = none)
    (hr : Storage.readPage P.storage p = (s, .error e)) : P.fetch p = (P.missed s, .error e) := by
  simp only [fetch, hp, tally, hr, missed]

theorem fetch_of_read {p : PageId} {s : δ} {x : Page} (hp : P.resident[p]? = none)
    (hr : Storage.readPage P.storage p = (s, .ok x)) :
    P.fetch p = match (P.missed s).makeRoom with
      | (R, .error e) => (R, .error e)
      | (R, .ok ()) => ((R.addFrame x).cache p R.nextFrame, .ok R.nextFrame) := by
  simp only [fetch, hp, tally, hr]
  rfl

/-! ## Other storages -/

section OtherStorage

variable {ε : Type} [Storage ε]

theorem evict_withStorage (P : Pool δ) (s : ε) :
    (P.withStorage s).evict = (P.evict.1.withStorage s, P.evict.2) := by
  by_cases hzero : P.resident.size = 0
  · rw [evict_of_empty hzero]
    exact evict_of_empty (P := P.withStorage s) hzero
  · have hev := evict_eq (P := P) (by omega)
    have hev' := evict_eq (P := P.withStorage s) (show 0 < P.resident.size by omega)
    have hvictim : (P.withStorage s).victim = P.victim := rfl
    rw [hev, hev', hvictim]
    cases P.victim <;> rfl

theorem evictMany_withStorage (s : ε) : ∀ (n : Nat) (P : Pool δ),
    (P.withStorage s).evictMany n = ((P.evictMany n).1.withStorage s, (P.evictMany n).2) := by
  intro n
  induction n with
  | zero => exact fun P => rfl
  | succ n ih =>
    intro P
    rw [evictMany, evictMany, evict_withStorage]
    rcases P.evict with ⟨R, e | ⟨⟩⟩
    · rfl
    · exact ih R

/-- **Making room does not look at the storage**: over any other one the same pages are evicted. -/
theorem makeRoom_withStorage (P : Pool δ) (s : ε) :
    (P.withStorage s).makeRoom = (P.makeRoom.1.withStorage s, P.makeRoom.2) :=
  evictMany_withStorage s _ P

end OtherStorage

end Room

end Pool

end PageEngine
