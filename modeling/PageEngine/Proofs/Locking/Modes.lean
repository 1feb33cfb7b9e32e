import Mathlib.Tactic.Common
import PageEngine.LockTable

/-!
# `Proofs/Locking/Modes.lean` — who holds what, through every operation on locks

`Lock.modeOf` and `LockTable.modeOf` are the map from transactions to modes that a lock and a table
stand for. This file says what each operation does to that map, so that no later proof has to open a
lock record:

> **an operation for `t` changes the modes of `t` and of nobody else.**

A grant raises the mode of `t` on one page and a release takes it away. Two facts about the
representation make this true, and both are kept by every operation: a lock that has an owner has no
sharers (`Lock.Proper`), since otherwise they would come to light when the owner lets go; and the pages
listed under a transaction are those whose records list it (`LockTable.Consistent`), since
`LockTable.releaseAll` goes by that list.
-/

set_option autoImplicit false

namespace PageEngine

open Std

/-- The mode in which a page is held after a grant, by the mode in which it was held before. -/
def Mode.raised (old : Option Mode) (m : Mode) : Mode :=
  match old with
  | some o => o.sup m
  | none => m

@[simp] theorem Mode.raised_exclusive (m : Mode) : Mode.raised (some .exclusive) m = .exclusive := rfl

/-! ## One lock -/

namespace Lock

/-- A lock that is owned is not shared. -/
def Proper (l : Lock) : Prop := l.owner = none ∨ l.sharers = ∅

theorem proper_free : free.Proper := Or.inl rfl

@[simp] theorem modeOf_free (t : TxnId) : free.modeOf t = none := by simp [free, modeOf]

theorem modeOf_of_owner {l : Lock} {h : TxnId} (ho : l.owner = some h) (t : TxnId) :
    l.modeOf t = if h = t then some .exclusive else none := by
  simp only [modeOf, ho]

theorem modeOf_of_shared {l : Lock} (ho : l.owner = none) (t : TxnId) :
    l.modeOf t = if t ∈ l.sharers then some .shared else none := by
  simp only [modeOf, ho]

theorem eq_of_modeOf_exclusive {l : Lock} {t u : TxnId} (ht : l.modeOf t = some .exclusive)
    (hu : (l.modeOf u).isSome) : u = t := by
  cases ho : l.owner with
  | none =>
    rw [modeOf_of_shared ho] at ht
    split at ht <;> cases ht
  | some h =>
    rw [modeOf_of_owner ho] at ht hu
    have h₁ : h = t := by
      by_contra hne
      rw [if_neg hne] at ht
      cases ht
    have h₂ : h = u := by
      by_contra hne
      rw [if_neg hne] at hu
      cases hu
    exact h₂.symm.trans h₁

theorem mem_holders {l : Lock} {t : TxnId} : t ∈ l.holders ↔ (l.modeOf t).isSome := by
  cases ho : l.owner with
  | none =>
    rw [modeOf_of_shared ho]
    simp only [holders, ho, ExtTreeSet.mem_toList]
    split <;> simp_all
  | some h =>
    rw [modeOf_of_owner ho]
    simp only [holders, ho, List.mem_singleton]
    by_cases hh : h = t
    · simp [hh]
    · simp [hh, Ne.symm hh]

theorem modeOf_of_isFree {l : Lock} (h : l.isFree = true) (t : TxnId) : l.modeOf t = none := by
  obtain ⟨ho, hs⟩ : l.owner = none ∧ l.sharers.isEmpty = true := by simpa [isFree] using h
  rw [modeOf_of_shared ho]
  simp [ExtTreeSet.isEmpty_iff.1 hs]

theorem exists_holder {l : Lock} (h : l.isFree = false) : ∃ t, t ∈ l.holders := by
  cases ho : l.owner with
  | some t => exact ⟨t, by simp [holders, ho]⟩
  | none =>
    have hne : l.sharers.toList ≠ [] := by
      intro hnil
      rw [ExtTreeSet.toList_eq_nil_iff] at hnil
      simp [isFree, ho, hnil] at h
    obtain ⟨t, ht⟩ := List.exists_mem_of_ne_nil _ hne
    exact ⟨t, by simpa [holders, ho] using ht⟩

/-- A request is granted by an owner's own lock, by an unowned lock that it asks to share, by a lock
that nobody shares, or by a lock that only the requester shares. -/
theorem tryAcquire_cases {l l' : Lock} {t : TxnId} {m : Mode} (h : l.tryAcquire t m = some l') :
    (l.owner = some t ∧ l' = l) ∨
    (l.owner = none ∧ m = .shared ∧ l' = { l with sharers := l.sharers.insert t }) ∨
    (l.owner = none ∧ m = .exclusive ∧ l.sharers = ∅ ∧ l' = { l with owner := some t }) ∨
    (l.owner = none ∧ m = .exclusive ∧ l.sharers.size = 1 ∧ t ∈ l.sharers ∧
      l' = { sharers := ∅, owner := some t }) := by
  unfold tryAcquire at h
  split at h
  case h_1 o _ ho =>
    split at h
    · rename_i heq
      exact .inl ⟨heq ▸ ho, by simpa using h.symm⟩
    · cases h
  case h_2 ho => exact .inr (.inl ⟨ho, rfl, by simpa using h.symm⟩)
  case h_3 ho =>
    split at h
    · rename_i hempty
      exact .inr (.inr (.inl ⟨ho, rfl, ExtTreeSet.isEmpty_iff.1 hempty, by simpa using h.symm⟩))
    · split at h
      · rename_i hsole
        exact .inr (.inr (.inr ⟨ho, rfl, hsole.1, hsole.2, by simpa using h.symm⟩))
      · cases h

theorem eq_of_mem_of_size_one {s : ExtTreeSet TxnId} (hs : s.size = 1) {t u : TxnId} (ht : t ∈ s)
    (hu : u ∈ s) : u = t := by
  have hlen : s.toList.length = 1 := by rw [ExtTreeSet.length_toList, hs]
  obtain ⟨a, ha⟩ := List.length_eq_one_iff.1 hlen
  have ht' : t ∈ s.toList := ExtTreeSet.mem_toList.2 ht
  have hu' : u ∈ s.toList := ExtTreeSet.mem_toList.2 hu
  rw [ha, List.mem_singleton] at ht' hu'
  exact hu'.trans ht'.symm

/-- **A grant raises the mode of the requester and changes no other.** -/
theorem modeOf_tryAcquire {l l' : Lock} {t : TxnId} {m : Mode} (h : l.tryAcquire t m = some l')
    (u : TxnId) : l'.modeOf u = if u = t then some (Mode.raised (l.modeOf t) m) else l.modeOf u := by
  rcases tryAcquire_cases h with ⟨ho, rfl⟩ | ⟨ho, rfl, rfl⟩ | ⟨ho, rfl, hs, rfl⟩ |
      ⟨ho, rfl, hs, ht, rfl⟩
  · rw [modeOf_of_owner ho, modeOf_of_owner ho]
    by_cases hu : u = t
    · simp [hu]
    · simp [hu, Ne.symm hu]
  · rw [modeOf_of_shared (by exact ho), modeOf_of_shared ho, modeOf_of_shared ho]
    simp only [ExtTreeSet.mem_insert, Std.compare_eq_iff_eq]
    by_cases hu : u = t
    · subst hu
      by_cases hm : u ∈ l.sharers <;> simp [hm, Mode.raised, Mode.sup]
    · simp [hu, Ne.symm hu]
  · rw [modeOf_of_owner rfl, modeOf_of_shared ho, modeOf_of_shared ho]
    by_cases hu : u = t
    · simp [hu, hs, Mode.raised]
    · simp [hu, Ne.symm hu, hs]
  · rw [modeOf_of_owner rfl, modeOf_of_shared ho, modeOf_of_shared ho]
    by_cases hu : u = t
    · simp [hu, ht, Mode.raised, Mode.sup]
    · have hnot : u ∉ l.sharers := fun hmem => hu (eq_of_mem_of_size_one hs ht hmem)
      simp [hu, Ne.symm hu, hnot]

theorem Proper.tryAcquire {l l' : Lock} {t : TxnId} {m : Mode} (hp : l.Proper)
    (h : l.tryAcquire t m = some l') : l'.Proper := by
  rcases tryAcquire_cases h with ⟨-, rfl⟩ | ⟨ho, -, rfl⟩ | ⟨-, -, hs, rfl⟩ | ⟨-, -, -, -, rfl⟩
  · exact hp
  · exact .inl ho
  · exact .inr hs
  · exact .inr rfl

theorem isFree_tryAcquire {l l' : Lock} {t : TxnId} {m : Mode} (h : l.tryAcquire t m = some l') :
    l'.isFree = false := by
  rcases tryAcquire_cases h with ⟨ho, rfl⟩ | ⟨-, -, rfl⟩ | ⟨-, -, -, rfl⟩ | ⟨-, -, -, -, rfl⟩
  · simp [isFree, ho]
  · simp [isFree]
  · simp [isFree]
  · simp [isFree]

theorem tryAcquire_of_isFree {l : Lock} (h : l.isFree = true) (t : TxnId) (m : Mode) :
    (l.tryAcquire t m).isSome := by
  obtain ⟨ho, hs⟩ : l.owner = none ∧ l.sharers.isEmpty = true := by simpa [isFree] using h
  cases m <;> simp [tryAcquire, ho, hs]

theorem isFree_of_unheld {l : Lock} (h : ∀ t, l.modeOf t = none) : l.isFree = true := by
  by_contra hne
  obtain ⟨t, ht⟩ := exists_holder (Bool.eq_false_iff.2 hne)
  rw [mem_holders, h t] at ht
  cases ht

/-- A transaction lets go of the lock that it owns, or of its share. -/
theorem release?_cases {l l' : Lock} {t : TxnId} (h : l.release? t = some l') :
    (l.owner = some t ∧ l' = { l with owner := none }) ∨
    (l.owner ≠ some t ∧ t ∈ l.sharers ∧ l' = { l with sharers := l.sharers.erase t }) := by
  unfold release? at h
  split at h
  · rename_i ho
    exact .inl ⟨ho, by simpa using h.symm⟩
  · rename_i ho
    split at h
    · rename_i ht
      exact .inr ⟨ho, ht, by simpa using h.symm⟩
    · cases h

theorem release?_isSome {l : Lock} {t : TxnId} (h : (l.modeOf t).isSome) :
    (l.release? t).isSome := by
  cases ho : l.owner with
  | none =>
    rw [modeOf_of_shared ho] at h
    by_cases ht : t ∈ l.sharers
    · simp [release?, ho, ht]
    · simp [ht] at h
  | some o =>
    rw [modeOf_of_owner ho] at h
    by_cases ht : o = t
    · simp [release?, ho, ht]
    · simp [ht] at h

/-- **A release ends the hold of its transaction and changes no other.** -/
theorem modeOf_release? {l l' : Lock} {t : TxnId} (hp : l.Proper) (h : l.release? t = some l')
    (u : TxnId) : l'.modeOf u = if u = t then none else l.modeOf u := by
  rcases release?_cases h with ⟨ho, rfl⟩ | ⟨ho, ht, rfl⟩
  · -- What the owner leaves behind has no sharers, or they would hold the lock now.
    have hs : l.sharers = ∅ := hp.resolve_left (by simp [ho])
    rw [modeOf_of_shared rfl, modeOf_of_owner ho]
    by_cases hu : u = t
    · simp [hu, hs]
    · simp [hu, Ne.symm hu, hs]
  · have hn : l.owner = none := hp.resolve_right fun hs => by simp [hs] at ht
    rw [modeOf_of_shared (by exact hn), modeOf_of_shared hn]
    by_cases hu : u = t
    · simp [hu]
    · simp [hu, Ne.symm hu]

theorem Proper.release? {l l' : Lock} {t : TxnId} (hp : l.Proper) (h : l.release? t = some l') :
    l'.Proper := by
  rcases release?_cases h with ⟨-, rfl⟩ | ⟨-, ht, rfl⟩
  · exact .inl rfl
  · exact .inl (hp.resolve_right fun hs => by simp [hs] at ht)

end Lock

/-! ## The table of locks -/

namespace LockTable

/-- The records of a table: each is proper, and somebody holds it. -/
def Recorded (L : LockTable) : Prop :=
  ∀ (p : PageId) (r : LockRecord), L.records[p]? = some r → r.lock.Proper ∧ r.lock.isFree = false

/-- The records agree with the lists of held pages. -/
structure Consistent (L : LockTable) : Prop where
  recorded : L.Recorded
  heldBy : ∀ t p, p ∈ L.heldSet t ↔ (L.modeOf p t).isSome
  listed : ∀ (t : TxnId) (s : ExtTreeSet PageId), L.held[t]? = some s → s ≠ ∅

theorem lock_of_record {L : LockTable} {p : PageId} {r : LockRecord}
    (h : L.records[p]? = some r) : L.lock p = r.lock := by
  simp only [lock, h]

theorem lock_of_none {L : LockTable} {p : PageId} (h : L.records[p]? = none) :
    L.lock p = Lock.free := by
  simp only [lock, h]

theorem modeOf_congr {L L' : LockTable} (h : L'.records = L.records) (p : PageId) (t : TxnId) :
    L'.modeOf p t = L.modeOf p t := by
  simp only [modeOf, lock, h]

theorem eq_of_modeOf_exclusive {L : LockTable} {p : PageId} {t u : TxnId}
    (ht : L.modeOf p t = some .exclusive) (hu : (L.modeOf p u).isSome) : u = t :=
  Lock.eq_of_modeOf_exclusive ht hu

theorem mem_holders {L : LockTable} {p : PageId} {t : TxnId} :
    t ∈ L.holders p ↔ (L.modeOf p t).isSome := Lock.mem_holders

theorem mem_heldPages {L : LockTable} (h : L.Consistent) {p : PageId} {t : TxnId} :
    p ∈ L.heldPages t ↔ (L.modeOf p t).isSome := by
  rw [heldPages, ExtTreeSet.mem_toList, h.heldBy]

theorem modeOf_empty (p : PageId) (t : TxnId) : empty.modeOf p t = none := by
  rw [modeOf, lock_of_none (by simp [empty]), Lock.modeOf_free]

theorem recordFor_lock (L : LockTable) (p : PageId) : (L.recordFor p).lock = L.lock p := by
  cases h : L.records[p]? with
  | none => simp [recordFor, lock, h]
  | some r => simp [recordFor, lock, h]

theorem Recorded.lock_proper {L : LockTable} (h : L.Recorded) (p : PageId) : (L.lock p).Proper := by
  cases hr : L.records[p]? with
  | none => rw [lock_of_none hr]; exact Lock.proper_free
  | some r => rw [lock_of_record hr]; exact (h p r hr).1

theorem consistent_empty : empty.Consistent where
  recorded p r h := by simp [empty] at h
  heldBy t p := by simp [empty, heldSet, modeOf, lock]
  listed t s h := by simp [empty] at h

/-! ### Acquiring -/

/-- The table in which a transaction waits for a page. -/
def waitFor (L : LockTable) (t : TxnId) (p : PageId) : LockTable :=
  { L with waiting := L.waiting.insert t p }

/-- An attempt is granted, closes a cycle of waiting transactions, or goes to sleep. -/
theorem attempt_cases (L : LockTable) (p : PageId) (t : TxnId) (m : Mode) :
    (∃ l, (L.lock p).tryAcquire t m = some l ∧
      L.attempt p t m = (L.grant p t (L.recordFor p) l, .granted)) ∨
    ((L.lock p).tryAcquire t m = none ∧ (L.waitFor t p).waitGraph.hasCycleFrom t = true ∧
      L.attempt p t m = ((L.waitFor t p).stopWaiting t, .deadlock)) ∨
    ((L.lock p).tryAcquire t m = none ∧ (L.waitFor t p).waitGraph.hasCycleFrom t = false ∧
      L.attempt p t m = (L.waitFor t p).putToSleep ⟨t, p, m, (L.recordFor p).stamp⟩) := by
  cases h : (L.lock p).tryAcquire t m with
  | some l =>
    refine .inl ⟨l, rfl, ?_⟩
    simp only [attempt, recordFor_lock, h]
  | none =>
    cases hc : (L.waitFor t p).waitGraph.hasCycleFrom t with
    | true =>
      refine .inr (.inl ⟨rfl, rfl, ?_⟩)
      simp only [attempt, recordFor_lock, h]
      exact if_pos hc
    | false =>
      refine .inr (.inr ⟨rfl, rfl, ?_⟩)
      simp only [attempt, recordFor_lock, h]
      exact if_neg (by rw [waitFor] at hc; simp [hc])

theorem lock_grant (L : LockTable) (p : PageId) (t : TxnId) (r : LockRecord) (l : Lock) (q : PageId) :
    (L.grant p t r l).lock q = if q = p then l else L.lock q := by
  by_cases hq : q = p
  · subst hq
    simp [lock, grant]
  · simp [lock, grant, stopWaiting, ExtTreeMap.getElem?_insert, Ne.symm hq, hq]

theorem heldSet_grant (L : LockTable) (p : PageId) (t : TxnId) (r : LockRecord) (l : Lock)
    (u : TxnId) :
    (L.grant p t r l).heldSet u = if u = t then (L.heldSet t).insert p else L.heldSet u := by
  by_cases hu : u = t
  · subst hu
    simp [heldSet, grant]
  · simp [heldSet, grant, stopWaiting, ExtTreeMap.getElem?_insert, Ne.symm hu, hu]

theorem modeOf_grant {L : LockTable} {p : PageId} {t : TxnId} {m : Mode} {l : Lock}
    (h : (L.lock p).tryAcquire t m = some l) (q : PageId) (u : TxnId) :
    (L.grant p t (L.recordFor p) l).modeOf q u =
      if q = p ∧ u = t then some (Mode.raised (L.modeOf p t) m) else L.modeOf q u := by
  simp only [modeOf, lock_grant]
  by_cases hq : q = p
  · subst hq
    simp only [if_true, true_and]
    exact Lock.modeOf_tryAcquire h u
  · simp [hq]

/-- **An attempt changes the mode of the requester on the page, if it is granted, and no other.** -/
theorem modeOf_attempt (L : LockTable) (p : PageId) (t : TxnId) (m : Mode) (q : PageId) (u : TxnId) :
    (L.attempt p t m).1.modeOf q u =
      if (L.attempt p t m).2 = .granted ∧ q = p ∧ u = t then
        some (Mode.raised (L.modeOf p t) m)
      else L.modeOf q u := by
  rcases L.attempt_cases p t m with ⟨l, hl, ha⟩ | ⟨-, -, ha⟩ | ⟨-, -, ha⟩
  · rw [ha]
    simp only [true_and]
    exact modeOf_grant hl q u
  · rw [ha]
    simp only [reduceCtorEq, false_and, if_false]
    exact modeOf_congr rfl q u
  · rw [ha]
    simp only [putToSleep, reduceCtorEq, false_and, if_false]
    exact modeOf_congr rfl q u

/-- A page that nobody holds is granted to whoever asks for it. -/
theorem attempt_of_unheld {L : LockTable} {p : PageId} (h : ∀ u, L.modeOf p u = none) (t : TxnId)
    (m : Mode) : L.attempt p t m = ((L.attempt p t m).1, .granted) := by
  have hfree := Lock.tryAcquire_of_isFree (Lock.isFree_of_unheld h) t m
  rcases L.attempt_cases p t m with ⟨l, -, ha⟩ | ⟨hnone, -, -⟩ | ⟨hnone, -, -⟩
  · rw [ha]
  · rw [hnone] at hfree
    cases hfree
  · rw [hnone] at hfree
    cases hfree

theorem held_attempt {L : LockTable} {p q : PageId} {t u : TxnId} {m : Mode}
    (h : (L.modeOf q u).isSome) : ((L.attempt p t m).1.modeOf q u).isSome := by
  rw [modeOf_attempt]
  split
  · rfl
  · exact h

theorem Recorded.grant {L : LockTable} (h : L.Recorded) {p : PageId} {t : TxnId} {m : Mode} {l : Lock}
    (hl : (L.lock p).tryAcquire t m = some l) : (L.grant p t (L.recordFor p) l).Recorded := by
  intro q r hr
  by_cases hq : p = q
  · subst hq
    have hr' : r = { L.recordFor p with lock := l } := by
      simpa [LockTable.grant] using hr.symm
    subst hr'
    exact ⟨(h.lock_proper p).tryAcquire hl, Lock.isFree_tryAcquire hl⟩
  · refine h q r ?_
    simpa [LockTable.grant, stopWaiting, ExtTreeMap.getElem?_insert, hq] using hr

theorem Consistent.grant {L : LockTable} (h : L.Consistent) {p : PageId} {t : TxnId} {m : Mode}
    {l : Lock} (hl : (L.lock p).tryAcquire t m = some l) :
    (L.grant p t (L.recordFor p) l).Consistent where
  recorded := h.recorded.grant hl
  heldBy u q := by
    rw [heldSet_grant, modeOf_grant hl]
    by_cases hu : u = t
    · subst hu
      by_cases hq : q = p
      · simp [hq]
      · simp [hq, Ne.symm hq, h.heldBy]
    · simp [hu, h.heldBy]
  listed u s hs := by
    by_cases hu : t = u
    · subst hu
      have hs' : (L.heldSet t).insert p = s := by simpa [LockTable.grant] using hs
      intro hempty
      have hmem : p ∈ s := hs' ▸ ExtTreeSet.mem_insert_self
      simp [hempty] at hmem
    · refine h.listed u s ?_
      simpa [LockTable.grant, stopWaiting, ExtTreeMap.getElem?_insert, hu] using hs

/-- Consistency does not look at who waits or sleeps. -/
theorem Consistent.congr {L L' : LockTable} (h : L.Consistent) (hr : L'.records = L.records)
    (hh : L'.held = L.held) : L'.Consistent where
  recorded p r hp := h.recorded p r (hr ▸ hp)
  heldBy t p := by
    rw [modeOf_congr hr]
    simpa only [heldSet, hh] using h.heldBy t p
  listed t s hs := h.listed t s (hh ▸ hs)

theorem Consistent.attempt {L : LockTable} (h : L.Consistent) (p : PageId) (t : TxnId) (m : Mode) :
    (L.attempt p t m).1.Consistent := by
  rcases L.attempt_cases p t m with ⟨l, hl, ha⟩ | ⟨-, -, ha⟩ | ⟨-, -, ha⟩
  · rw [ha]
    exact h.grant hl
  · rw [ha]
    exact h.congr rfl rfl
  · rw [ha]
    exact h.congr rfl rfl

/-! ### Releasing -/

/-- A record is released by a holder: the calls that sleep on it wake, and it is dropped if that was
the last holder. -/
theorem releaseRecord_cases {L R : LockTable} {p : PageId} {t : TxnId}
    (h : L.releaseRecord p t = .ok R) :
    ∃ r l, L.records[p]? = some r ∧ r.lock.release? t = some l ∧
      R = { L.wake r.stamp with
        records := if l.isFree then L.records.erase p
          else L.records.insert p { r with lock := l } } := by
  unfold releaseRecord at h
  split at h
  · cases h
  · rename_i r hr
    simp only [Lock.release] at h
    cases hl : r.lock.release? t with
    | none => simp [hl] at h
    | some l => exact ⟨r, l, hr, hl, by simpa [hl] using h.symm⟩

theorem exists_releaseRecord {L : LockTable} {p : PageId} {t : TxnId} (h : (L.modeOf p t).isSome) :
    ∃ R, L.releaseRecord p t = .ok R := by
  cases hr : L.records[p]? with
  | none => simp [modeOf, lock_of_none hr] at h
  | some r =>
    rw [modeOf, lock_of_record hr] at h
    obtain ⟨l, hl⟩ := Option.isSome_iff_exists.1 (Lock.release?_isSome h)
    simp [releaseRecord, hr, Lock.release, hl]

theorem record_releaseRecord {L R : LockTable} {p : PageId} {t : TxnId}
    (h : L.releaseRecord p t = .ok R) {q : PageId} (hq : q ≠ p) : R.records[q]? = L.records[q]? := by
  obtain ⟨r, l, -, -, rfl⟩ := releaseRecord_cases h
  cases hf : l.isFree with
  | true => simp [ExtTreeMap.getElem?_erase, Ne.symm hq]
  | false => simp [ExtTreeMap.getElem?_insert, Ne.symm hq]

/-- **A release of a record ends the hold of its transaction on the page and changes no other.** -/
theorem modeOf_releaseRecord {L R : LockTable} (hL : L.Recorded) {p : PageId} {t : TxnId}
    (h : L.releaseRecord p t = .ok R) (q : PageId) (u : TxnId) :
    R.modeOf q u = if q = p ∧ u = t then none else L.modeOf q u := by
  by_cases hq : q = p
  · subst hq
    obtain ⟨r, l, hr, hl, rfl⟩ := releaseRecord_cases h
    have hmode := Lock.modeOf_release? (hL q r hr).1 hl u
    simp only [true_and]
    rw [modeOf, modeOf, lock_of_record hr, ← hmode]
    cases hf : l.isFree with
    | true => simp [lock, Lock.modeOf_of_isFree hf]
    | false => simp [lock]
  · simp only [hq, false_and, if_false, modeOf, lock, record_releaseRecord h hq]

theorem Recorded.releaseRecord {L R : LockTable} (hL : L.Recorded) {p : PageId} {t : TxnId}
    (h : L.releaseRecord p t = .ok R) : R.Recorded := by
  intro q s hs
  by_cases hq : q = p
  · subst hq
    obtain ⟨r, l, hr, hl, rfl⟩ := releaseRecord_cases h
    cases hf : l.isFree with
    | true => simp [hf] at hs
    | false =>
      have hs' : s = { r with lock := l } := by simpa [hf] using hs.symm
      subst hs'
      exact ⟨(hL q r hr).1.release? hl, hf⟩
  · rw [record_releaseRecord h hq] at hs
    exact hL q s hs

theorem held_releaseRecord {L R : LockTable} {p : PageId} {t : TxnId}
    (h : L.releaseRecord p t = .ok R) : R.held = L.held := by
  obtain ⟨r, l, -, -, rfl⟩ := releaseRecord_cases h
  rfl

/-- Whatever one release of a record keeps, the release of a list of records keeps. -/
theorem releaseRecords_induct {motive : LockTable → Prop} {t : TxnId}
    (step : ∀ L R p, L.releaseRecord p t = .ok R → motive L → motive R) :
    ∀ (ps : List PageId) (L : LockTable), motive L → motive (L.releaseRecords t ps).1 := by
  intro ps
  induction ps with
  | nil => exact fun L h => h
  | cons p ps ih =>
    intro L h
    unfold releaseRecords
    split
    · rename_i R hR
      exact ih R (step L R p hR h)
    · exact h

/-- The records of distinct pages that `t` holds are all released. -/
theorem releaseRecords_spec {t : TxnId} :
    ∀ (ps : List PageId) (L : LockTable), L.Recorded → ps.Nodup →
      (∀ p ∈ ps, (L.modeOf p t).isSome) →
      (L.releaseRecords t ps).2 = .ok () ∧
      ∀ q u, (L.releaseRecords t ps).1.modeOf q u = if q ∈ ps ∧ u = t then none else L.modeOf q u := by
  intro ps
  induction ps with
  | nil =>
    intro L _ _ _
    exact ⟨rfl, fun q u => by simp [releaseRecords]⟩
  | cons p ps ih =>
    intro L hL hnd hheld
    obtain ⟨R, hR⟩ := exists_releaseRecord (hheld p (by simp))
    obtain ⟨hnot, hnd'⟩ := List.nodup_cons.1 hnd
    have hheld' : ∀ q ∈ ps, (R.modeOf q t).isSome := by
      intro q hq
      have hne : q ≠ p := fun he => hnot (he ▸ hq)
      rw [modeOf_releaseRecord hL hR, if_neg (by simp [hne])]
      exact hheld q (List.mem_cons_of_mem p hq)
    obtain ⟨hok, hmode⟩ := ih R (hL.releaseRecord hR) hnd' hheld'
    have hunf : L.releaseRecords t (p :: ps) = R.releaseRecords t ps := by
      simp only [releaseRecords, hR]
    rw [hunf]
    refine ⟨hok, ?_⟩
    intro q u
    rw [hmode q u, modeOf_releaseRecord hL hR]
    by_cases hu : u = t
    · by_cases hq : q = p <;> simp [hu, hq]
    · simp [hu]

theorem heldPages_nodup (L : LockTable) (t : TxnId) : (L.heldPages t).Nodup := by
  refine List.Pairwise.imp ?_ (ExtTreeSet.distinct_toList (t := L.heldSet t))
  intro a b hab heq
  exact hab (Std.compare_eq_iff_eq.2 heq)

theorem releaseAll_eq (L : LockTable) (t : TxnId) :
    L.releaseAll t =
      ({ L.stopWaiting t with held := L.held.erase t } : LockTable).releaseRecords t (L.heldPages t) :=
  rfl

/-- **Releasing everything never fails, and takes every hold of the transaction and no other.** -/
theorem releaseAll_spec {L : LockTable} (h : L.Consistent) (t : TxnId) :
    (L.releaseAll t).2 = .ok () ∧
    ∀ q u, (L.releaseAll t).1.modeOf q u = if u = t then none else L.modeOf q u := by
  rw [releaseAll_eq]
  have hheld : ∀ p ∈ L.heldPages t, (L.modeOf p t).isSome := fun p hp => (mem_heldPages h).1 hp
  obtain ⟨hok, hmode⟩ := releaseRecords_spec (L.heldPages t)
    ({ L.stopWaiting t with held := L.held.erase t } : LockTable) h.recorded
    (L.heldPages_nodup t) hheld
  refine ⟨hok, ?_⟩
  intro q u
  rw [hmode]
  by_cases hu : u = t
  · subst hu
    by_cases hq : q ∈ L.heldPages u
    · simp [hq]
    · have hnone : L.modeOf q u = none := by
        rw [← Option.not_isSome_iff_eq_none, ← mem_heldPages h]
        exact hq
      simp only [hq, false_and, if_false]
      exact hnone
  · simp only [hu, and_false, if_false]
    exact modeOf_congr rfl q u

theorem held_releaseAll (L : LockTable) (t : TxnId) :
    (L.releaseAll t).1.held = L.held.erase t := by
  rw [releaseAll_eq]
  exact releaseRecords_induct (motive := fun R => R.held = L.held.erase t)
    (fun K R p hR hK => (held_releaseRecord hR).trans hK) _ _ rfl

theorem Consistent.releaseAll {L : LockTable} (h : L.Consistent) (t : TxnId) :
    (L.releaseAll t).1.Consistent where
  recorded := by
    rw [releaseAll_eq]
    exact releaseRecords_induct (motive := Recorded) (fun K R p hR hK => hK.releaseRecord hR) _ _
      h.recorded
  heldBy u p := by
    rw [(releaseAll_spec h t).2, heldSet, held_releaseAll]
    by_cases hu : u = t
    · simp [hu]
    · have hrest := h.heldBy u p
      simp only [heldSet] at hrest
      simp [hu, Ne.symm hu, ExtTreeMap.getElem?_erase, hrest]
  listed u s hs := by
    rw [held_releaseAll, ExtTreeMap.getElem?_erase] at hs
    split at hs
    · cases hs
    · exact h.listed u s hs

theorem heldSet_dropHeld (L : LockTable) (p : PageId) (t u : TxnId) :
    (L.dropHeld p t).heldSet u = if u = t then (L.heldSet t).erase p else L.heldSet u := by
  by_cases hu : u = t
  · subst hu
    simp only [dropHeld, if_true]
    split
    · rename_i he
      simpa [heldSet] using (ExtTreeSet.isEmpty_iff.1 he).symm
    · simp [heldSet]
  · simp only [dropHeld, hu, if_false]
    split <;> simp [heldSet, ExtTreeMap.getElem?_erase, ExtTreeMap.getElem?_insert, Ne.symm hu]

/-- Whatever the two parts of a release keep, the release keeps. -/
theorem release_induct {motive : LockTable → Prop} {L : LockTable} {p : PageId} {t : TxnId}
    (drop : motive L → motive (L.dropHeld p t))
    (step : ∀ K R, K.releaseRecord p t = .ok R → motive K → motive R) (h : motive L) :
    motive (L.release p t).1 := by
  unfold release
  split
  · dsimp only
    split
    · rename_i R hR
      exact step _ R hR (drop h)
    · exact drop h
  · exact h

theorem release_of_held {L : LockTable} (h : L.Consistent) {p : PageId} {t : TxnId}
    (hp : (L.modeOf p t).isSome) :
    ∃ R, (L.dropHeld p t).releaseRecord p t = .ok R ∧ L.release p t = (R, .ok ()) := by
  have hmem : p ∈ L.heldSet t := (h.heldBy t p).2 hp
  obtain ⟨R, hR⟩ := exists_releaseRecord (L := L.dropHeld p t) (p := p) (t := t) hp
  exact ⟨R, hR, by simp [release, hmem, hR]⟩

theorem release_of_not_held {L : LockTable} (h : L.Consistent) {p : PageId} {t : TxnId}
    (hp : L.modeOf p t = none) : L.release p t = (L, .error (.lockNotHeld p t)) := by
  have hmem : p ∉ L.heldSet t := by rw [h.heldBy, hp]; simp
  simp [release, hmem]

/-- **Releasing a page takes the hold of the transaction on it and no other.** -/
theorem modeOf_release {L : LockTable} (h : L.Consistent) (p : PageId) (t : TxnId) (q : PageId)
    (u : TxnId) :
    (L.release p t).1.modeOf q u = if q = p ∧ u = t then none else L.modeOf q u := by
  by_cases hp : (L.modeOf p t).isSome
  · obtain ⟨R, hR, hrel⟩ := release_of_held h hp
    have hrec : (L.dropHeld p t).Recorded := h.recorded
    rw [hrel, modeOf_releaseRecord hrec hR]
    rfl
  · have hnone : L.modeOf p t = none := Option.not_isSome_iff_eq_none.1 hp
    rw [release_of_not_held h hnone]
    by_cases hq : q = p ∧ u = t
    · rw [if_pos hq, hq.1, hq.2, hnone]
    · rw [if_neg hq]

theorem Consistent.release {L : LockTable} (h : L.Consistent) (p : PageId) (t : TxnId) :
    (L.release p t).1.Consistent := by
  by_cases hp : (L.modeOf p t).isSome
  · obtain ⟨R, hR, hrel⟩ := release_of_held h hp
    have hrec : (L.dropHeld p t).Recorded := h.recorded
    rw [hrel]
    refine ⟨hrec.releaseRecord hR, ?_, ?_⟩
    · intro u q
      have hset : R.heldSet u = (L.dropHeld p t).heldSet u := by
        simp only [heldSet, held_releaseRecord hR]
      have hmode : (L.dropHeld p t).modeOf q u = L.modeOf q u := modeOf_congr rfl q u
      rw [hset, heldSet_dropHeld, modeOf_releaseRecord hrec hR, hmode]
      by_cases hu : u = t
      · subst hu
        by_cases hq : q = p
        · simp [hq]
        · simp [hq, Ne.symm hq, h.heldBy]
      · simp [hu, h.heldBy]
    · intro u s hs
      rw [held_releaseRecord hR, dropHeld] at hs
      by_cases hu : t = u
      · subst hu
        intro hempty
        split at hs
        · simp at hs
        · rename_i hne
          simp only [ExtTreeMap.getElem?_insert_self, Option.some.injEq] at hs
          exact hne (ExtTreeSet.isEmpty_iff.2 (hs.trans hempty))
      · refine h.listed u s ?_
        split at hs
        · simpa [ExtTreeMap.getElem?_erase, hu] using hs
        · simpa [ExtTreeMap.getElem?_insert, hu] using hs
  · rw [release_of_not_held h (Option.not_isSome_iff_eq_none.1 hp)]
    exact h

end LockTable

end PageEngine
