import Mathlib
import PageEngine.Proofs.Locking.Callers

/-!
# `Proofs/Locking/Wakeups.lean` — no request sleeps that would be granted

A call that sleeps is woken by a release of its page and by nothing else. Grants happen in between: others
share the page, or a sharer becomes its owner. None of them makes room for a request that was refused,
because a refusal has a cause that only a release takes away:

> **a request is refused exactly when somebody else holds the page, and one of the two modes is
> exclusive** (`Lock.tryAcquire_eq_none_iff`), and a grant lowers no mode.

Records come and go with their holders, so it has to be said which record a call sleeps on. Stamps are
what distinguishes them: no two pages have records of one stamp, so a release of one page wakes nobody
who sleeps on another.

Here a transaction may have any number of calls in flight, asleep or not, and may release while it
waits: `LockTable.Reachable` puts no condition on who calls what.
-/

set_option autoImplicit false

namespace PageEngine

open Std

namespace Lock

/-- A lock that nobody else shares is shared by nobody, or by that transaction alone. -/
theorem sole_sharer {s : ExtTreeSet TxnId} {t : TxnId} (h : ∀ u ∈ s, u = t) :
    s = ∅ ∨ (s.size = 1 ∧ t ∈ s) := by
  have hall : ∀ u ∈ s.toList, u = t := fun u hu => h u (ExtTreeSet.mem_toList.1 hu)
  have hnodup : s.toList.Nodup :=
    (ExtTreeSet.distinct_toList (t := s)).imp fun {a b} hab heq => hab (Std.compare_eq_iff_eq.2 heq)
  cases hlist : s.toList with
  | nil => exact .inl (ExtTreeSet.toList_eq_nil_iff.1 hlist)
  | cons a rest =>
    rw [hlist] at hall hnodup
    have ha : a = t := hall a (by simp)
    have hrest : rest = [] := by
      refine List.eq_nil_iff_forall_not_mem.2 fun b hb => (List.nodup_cons.1 hnodup).1 ?_
      rwa [ha, ← hall b (List.mem_cons_of_mem a hb)]
    refine .inr ⟨?_, ?_⟩
    · rw [← ExtTreeSet.length_toList, hlist, hrest]
      rfl
    · rw [← ExtTreeSet.mem_toList, hlist, ha]
      simp

/-- A lock without an owner refuses a request exactly when the request is to own it and somebody else
shares it. -/
theorem tryAcquire_shared_eq_none_iff {l : Lock} (ho : l.owner = none) {t : TxnId} {m : Mode} :
    l.tryAcquire t m = none ↔ m = .exclusive ∧ ∃ u ∈ l.sharers, u ≠ t := by
  cases m with
  | shared => simp [tryAcquire, ho]
  | exclusive =>
    simp only [true_and]
    constructor
    · intro hnone
      by_contra hno
      have honly : ∀ u ∈ l.sharers, u = t := by
        intro u hu
        by_contra hne
        exact hno ⟨u, hu, hne⟩
      rcases sole_sharer honly with hempty | hsole
      · simp [tryAcquire, ho, hempty] at hnone
      · simp only [tryAcquire, ho, if_pos hsole] at hnone
        split at hnone <;> cases hnone
    · rintro ⟨u, hu, hne⟩
      have hsome : l.sharers.isEmpty = false := by
        rw [Bool.eq_false_iff, Ne, ExtTreeSet.isEmpty_iff]
        intro hempty
        simp [hempty] at hu
      have hsole : ¬(l.sharers.size = 1 ∧ t ∈ l.sharers) := by
        rintro ⟨hs, ht⟩
        exact hne (eq_of_mem_of_size_one hs ht hu)
      simp [tryAcquire, ho, hsome, hsole]

/-- **The compatibility of modes.** A request is refused exactly when somebody else holds the lock, and
one of the two modes is exclusive. -/
theorem tryAcquire_eq_none_iff {l : Lock} {t : TxnId} {m : Mode} :
    l.tryAcquire t m = none ↔
      ∃ u n, u ≠ t ∧ l.modeOf u = some n ∧ (m = .exclusive ∨ n = .exclusive) := by
  cases ho : l.owner with
  | some h =>
    simp only [tryAcquire, ho, modeOf_of_owner ho]
    by_cases ht : h = t
    · subst ht
      simp +contextual [eq_comm]
    · rw [if_neg ht]
      exact iff_of_true rfl ⟨h, .exclusive, ht, if_pos rfl, .inr rfl⟩
  | none =>
    simp only [tryAcquire_shared_eq_none_iff ho, modeOf_of_shared ho]
    constructor
    · rintro ⟨hm, u, hu, hne⟩
      exact ⟨u, .shared, hne, if_pos hu, .inl hm⟩
    · rintro ⟨u, n, hne, hn, hm⟩
      split at hn
      · rename_i hu
        obtain rfl := Option.some.inj hn
        exact ⟨hm.resolve_right (by simp), u, hu, hne⟩
      · cases hn

end Lock

namespace LockTable

/-! ## Refusals -/

/-- A request that a table would refuse now. -/
def Refuses (L : LockTable) (p : PageId) (t : TxnId) (m : Mode) : Prop :=
  (L.lock p).tryAcquire t m = none

theorem refuses_iff {L : LockTable} {p : PageId} {t : TxnId} {m : Mode} :
    L.Refuses p t m ↔
      ∃ u n, u ≠ t ∧ L.modeOf p u = some n ∧ (m = .exclusive ∨ n = .exclusive) :=
  Lock.tryAcquire_eq_none_iff

/-- **A request that is refused goes on being refused, whoever is granted what.** -/
theorem Refuses.attempt {L : LockTable} {p : PageId} {t : TxnId} {m : Mode} (h : L.Refuses p t m)
    (q : PageId) (v : TxnId) (n : Mode) : (L.attempt q v n).1.Refuses p t m := by
  obtain ⟨u, o, hu, ho, hm⟩ := refuses_iff.1 h
  rw [refuses_iff]
  by_cases hgrant : (L.attempt q v n).2 = .granted ∧ p = q ∧ u = v
  · refine ⟨u, o.sup n, hu, ?_, ?_⟩
    · rw [modeOf_attempt, if_pos hgrant, ← hgrant.2.1, ← hgrant.2.2, ho]
      rfl
    · exact hm.imp_right fun he => by simp [he, Mode.sup]
  · exact ⟨u, o, hu, by rw [modeOf_attempt, if_neg hgrant, ho], hm⟩

/-! ## What every reachable table obeys -/

/-- The sleepers of a table and the records they sleep on. -/
structure Patient (L : LockTable) : Prop where
  recorded : L.Recorded
  attended : L.Attended
  stamps : ∀ (p : PageId) (r : LockRecord), L.records[p]? = some r → r.stamp < L.nextStamp
  /-- A stamp tells the page. -/
  distinct : ∀ (p q : PageId) (r s : LockRecord), L.records[p]? = some r → L.records[q]? = some s →
    r.stamp = s.stamp → p = q
  tickets : ∀ (k : Nat) (s : Sleeper), L.sleepers[k]? = some s → k < L.nextTicket
  refused : ∀ (k : Nat) (s : Sleeper), L.sleepers[k]? = some s → L.Refuses s.page s.txn s.mode

theorem patient_empty : empty.Patient where
  recorded := consistent_empty.recorded
  attended k s hk := by simp [empty] at hk
  stamps p r hr := by simp [empty] at hr
  distinct p q r s hr := by simp [empty] at hr
  tickets k s hk := by simp [empty] at hk
  refused k s hk := by simp [empty] at hk

/-- Whatever an attempt leads to, the records after it have the stamps they had, and the page that is
granted may have a record where it had none, with the next stamp. -/
theorem record_attempt {L : LockTable} {p q : PageId} {t : TxnId} {m : Mode} {r : LockRecord}
    (h : (L.attempt p t m).1.records[q]? = some r) :
    (∃ s, L.records[q]? = some s ∧ s.stamp = r.stamp) ∨
    (q = p ∧ r.stamp = L.nextStamp ∧ L.nextStamp < (L.attempt p t m).1.nextStamp) := by
  rcases L.attempt_cases p t m with ⟨l, -, ha⟩ | ⟨-, -, ha⟩ | ⟨-, -, ha⟩
  · rw [ha] at h ⊢
    by_cases hq : p = q
    · subst hq
      obtain rfl : { L.recordFor p with lock := l } = r := by simpa [grant] using h
      cases hp : L.records[p]? with
      | some s => exact .inl ⟨s, rfl, by simp [recordFor, hp]⟩
      | none => exact .inr ⟨rfl, by simp [recordFor, hp], by simp [grant, recordFor, hp]⟩
    · refine .inl ⟨r, ?_, rfl⟩
      simpa [grant, stopWaiting, ExtTreeMap.getElem?_insert, hq] using h
  · rw [ha] at h
    exact .inl ⟨r, h, rfl⟩
  · rw [ha] at h
    exact .inl ⟨r, h, rfl⟩

theorem nextStamp_attempt (L : LockTable) (p : PageId) (t : TxnId) (m : Mode) :
    L.nextStamp ≤ (L.attempt p t m).1.nextStamp := by
  rcases L.attempt_cases p t m with ⟨l, -, ha⟩ | ⟨-, -, ha⟩ | ⟨-, -, ha⟩
  · rw [ha]
    exact Nat.le_max_left _ _
  · rw [ha]
    exact Nat.le_refl _
  · rw [ha]
    exact Nat.le_refl _

theorem Recorded.attempt {L : LockTable} (h : L.Recorded) (p : PageId) (t : TxnId) (m : Mode) :
    (L.attempt p t m).1.Recorded := by
  rcases L.attempt_cases p t m with ⟨l, hl, ha⟩ | ⟨-, -, ha⟩ | ⟨-, -, ha⟩
  · rw [ha]
    exact h.grant hl
  · rw [ha]
    exact h
  · rw [ha]
    exact h

/-- The calls that sleep after an attempt slept before, or it is the one that asked. -/
theorem sleeper_attempt {L : LockTable} {p : PageId} {t : TxnId} {m : Mode} {k : Nat} {s : Sleeper}
    (h : (L.attempt p t m).1.sleepers[k]? = some s) :
    L.sleepers[k]? = some s ∨
    (k = L.nextTicket ∧ (L.attempt p t m).2 = .sleeps k ∧ L.Refuses p t m ∧
      s = ⟨t, p, m, (L.recordFor p).stamp⟩) := by
  rcases L.attempt_cases p t m with ⟨l, -, ha⟩ | ⟨-, -, ha⟩ | ⟨hrefused, -, ha⟩
  · rw [ha] at h
    exact .inl h
  · rw [ha] at h
    exact .inl h
  · rw [ha] at h ⊢
    simp only [putToSleep, ExtTreeMap.getElem?_insert, Std.compare_eq_iff_eq] at h
    split at h
    · rename_i hk
      exact .inr ⟨hk.symm, congrArg Attempt.sleeps hk, hrefused, (Option.some.inj h).symm⟩
    · exact .inl h

theorem Patient.attempt {L : LockTable} (h : L.Patient) (p : PageId) (t : TxnId) (m : Mode) :
    (L.attempt p t m).1.Patient where
  recorded := h.recorded.attempt p t m
  attended := h.attended.attempt p t m
  stamps q r hr := by
    rcases record_attempt hr with ⟨s, hs, heq⟩ | ⟨-, heq, hlt⟩
    · exact heq ▸ Nat.lt_of_lt_of_le (h.stamps q s hs) (L.nextStamp_attempt p t m)
    · exact heq ▸ hlt
  distinct q q' r r' hr hr' heq := by
    rcases record_attempt hr with ⟨s, hs, hrs⟩ | ⟨hq, hrs, -⟩ <;>
      rcases record_attempt hr' with ⟨s', hs', hrs'⟩ | ⟨hq', hrs', -⟩
    · exact h.distinct q q' s s' hs hs' (hrs.trans (heq.trans hrs'.symm))
    · -- An old stamp is below the next one.
      have hlt := h.stamps q s hs
      omega
    · have hlt := h.stamps q' s' hs'
      omega
    · exact hq.trans hq'.symm
  tickets k s hk := by
    rcases sleeper_attempt hk with hold | ⟨hnew, hsleeps, -, -⟩
    · have hlt := h.tickets k s hold
      rcases L.attempt_ends_or_sleeps p t m with ⟨-, -, -, hn⟩ | ⟨-, -, -, hn⟩ <;> omega
    · rcases L.attempt_ends_or_sleeps p t m with ⟨hends, -, -, -⟩ | ⟨-, -, -, hn⟩
      · exact absurd hsleeps (hends k)
      · omega
  refused k s hk := by
    rcases sleeper_attempt hk with hold | ⟨-, -, hrefused, rfl⟩
    · exact (h.refused k s hold).attempt p t m
    · exact hrefused.attempt p t m

/-- Every page but the one released keeps its record, and that one keeps its stamp. -/
theorem stamp_releaseRecord {L R : LockTable} {p q : PageId} {t : TxnId} {r : LockRecord}
    (h : L.releaseRecord p t = .ok R) (hr : R.records[q]? = some r) :
    ∃ s, L.records[q]? = some s ∧ s.stamp = r.stamp := by
  by_cases hq : q = p
  · subst hq
    obtain ⟨s, l, hs, -, rfl⟩ := releaseRecord_cases h
    refine ⟨s, hs, ?_⟩
    cases hf : l.isFree with
    | true => simp [hf] at hr
    | false =>
      obtain rfl : { s with lock := l } = r := by simpa [hf] using hr
      rfl
  · exact ⟨r, (record_releaseRecord h hq).symm.trans hr, rfl⟩

/-- A call sleeps on after the release of a record exactly when it slept on another one. -/
theorem sleeper_releaseRecord {L R : LockTable} {p : PageId} {t : TxnId}
    (h : L.releaseRecord p t = .ok R) (k : Nat) (s : Sleeper) :
    R.sleepers[k]? = some s ↔
      L.sleepers[k]? = some s ∧ ∀ r, L.records[p]? = some r → s.stamp ≠ r.stamp := by
  obtain ⟨r, l, hr, -, rfl⟩ := releaseRecord_cases h
  simp [wake, Option.filter_eq_some_iff, hr]

/-- **A release wakes every call that sleeps for the page.** -/
theorem page_ne_of_releaseRecord {L R : LockTable} (hL : L.Attended) {p : PageId} {t : TxnId}
    (h : L.releaseRecord p t = .ok R) {k : Nat} {s : Sleeper} (hk : R.sleepers[k]? = some s) :
    s.page ≠ p := by
  obtain ⟨hold, hne⟩ := (sleeper_releaseRecord h k s).1 hk
  obtain ⟨r, hr, hstamp⟩ := hL k s hold
  intro hp
  exact hne r (hp ▸ hr) hstamp.symm

theorem Patient.releaseRecord {L R : LockTable} (h : L.Patient) {p : PageId} {t : TxnId}
    (hR : L.releaseRecord p t = .ok R) : R.Patient where
  recorded := h.recorded.releaseRecord hR
  attended := h.attended.releaseRecord hR
  stamps q r hr := by
    obtain ⟨s, hs, heq⟩ := stamp_releaseRecord hR hr
    have hnext : R.nextStamp = L.nextStamp := by
      obtain ⟨_, _, -, -, rfl⟩ := releaseRecord_cases hR
      rfl
    rw [hnext, ← heq]
    exact h.stamps q s hs
  distinct q q' r r' hr hr' heq := by
    obtain ⟨s, hs, hrs⟩ := stamp_releaseRecord hR hr
    obtain ⟨s', hs', hrs'⟩ := stamp_releaseRecord hR hr'
    exact h.distinct q q' s s' hs hs' (hrs.trans (heq.trans hrs'.symm))
  tickets k s hk :=
    (wakes_releaseRecord hR).nextTicket ▸ h.tickets k s ((wakes_releaseRecord hR).sleepers k s hk)
  refused k s hk := by
    have hpage := page_ne_of_releaseRecord h.attended hR hk
    -- Nothing has changed at the pages of those who sleep on.
    obtain ⟨u, n, hu, hn, hm⟩ :=
      refuses_iff.1 (h.refused k s ((wakes_releaseRecord hR).sleepers k s hk))
    refine refuses_iff.2 ⟨u, n, hu, ?_, hm⟩
    rw [modeOf_releaseRecord h.recorded hR, if_neg (fun hsame => hpage hsame.1)]
    exact hn

theorem Patient.congr {L L' : LockTable} (h : L.Patient) (hr : L'.records = L.records)
    (hs : L'.sleepers = L.sleepers) (hn : L'.nextStamp = L.nextStamp)
    (ht : L'.nextTicket = L.nextTicket) : L'.Patient where
  recorded p r hp := h.recorded p r (hr ▸ hp)
  attended := h.attended.congr hr hs
  stamps p r hp := hn ▸ h.stamps p r (hr ▸ hp)
  distinct p q r s hp hq := h.distinct p q r s (hr ▸ hp) (hr ▸ hq)
  tickets k s hk := ht ▸ h.tickets k s (hs ▸ hk)
  refused k s hk := by
    have hold := h.refused k s (hs ▸ hk)
    rw [refuses_iff] at hold ⊢
    simpa only [modeOf_congr hr] using hold

theorem Patient.release {L : LockTable} (h : L.Patient) (p : PageId) (t : TxnId) :
    (L.release p t).1.Patient :=
  release_induct (motive := Patient) (fun hL => hL.congr rfl rfl rfl rfl)
    (fun _ _ hR hK => hK.releaseRecord hR) h

theorem Patient.releaseAll {L : LockTable} (h : L.Patient) (t : TxnId) :
    (L.releaseAll t).1.Patient := by
  rw [releaseAll_eq]
  exact releaseRecords_induct (motive := Patient) (fun _ _ _ hR hK => hK.releaseRecord hR) _ _
    (h.congr rfl rfl rfl rfl)

/-- The tables that a run from a new one comes to. A call that is woken asks again by one more attempt;
nothing is said about who may call when. -/
inductive Reachable : LockTable → Prop
  | empty : Reachable empty
  | attempt {L : LockTable} (p : PageId) (t : TxnId) (m : Mode) :
      Reachable L → Reachable (L.attempt p t m).1
  | release {L : LockTable} (p : PageId) (t : TxnId) : Reachable L → Reachable (L.release p t).1
  | releaseAll {L : LockTable} (t : TxnId) : Reachable L → Reachable (L.releaseAll t).1

theorem Reachable.inv {L : LockTable} (h : Reachable L) : L.Consistent ∧ L.Patient := by
  induction h with
  | empty => exact ⟨consistent_empty, patient_empty⟩
  | attempt p t m _ ih => exact ⟨ih.1.attempt p t m, ih.2.attempt p t m⟩
  | release p t _ ih => exact ⟨ih.1.release p t, ih.2.release p t⟩
  | releaseAll t _ ih => exact ⟨ih.1.releaseAll t, ih.2.releaseAll t⟩

/-! ## Runs without a release of a page -/

/-- `M` comes after `L` by any steps that release no hold on `p`. A release of `p` by a transaction that
does not hold it is an error and releases nothing. -/
inductive Unreleased (p : PageId) (L : LockTable) : LockTable → Prop
  | refl : Unreleased p L L
  | attempt {M : LockTable} (q : PageId) (t : TxnId) (m : Mode) :
      Unreleased p L M → Unreleased p L (M.attempt q t m).1
  | release {M : LockTable} (q : PageId) (t : TxnId) :
      Unreleased p L M → (q = p → M.modeOf p t = none) → Unreleased p L (M.release q t).1
  | releaseAll {M : LockTable} (t : TxnId) :
      Unreleased p L M → M.modeOf p t = none → Unreleased p L (M.releaseAll t).1

theorem Unreleased.reachable {p : PageId} {L M : LockTable} (h : Unreleased p L M)
    (hL : Reachable L) : Reachable M := by
  induction h with
  | refl => exact hL
  | attempt q t m _ ih => exact ih.attempt q t m
  | release q t _ _ ih => exact ih.release q t
  | releaseAll t _ _ ih => exact ih.releaseAll t

theorem Patient.keeps_attempt {L : LockTable} (h : L.Patient) {k : Nat} {s : Sleeper}
    (hk : L.sleepers[k]? = some s) (q : PageId) (t : TxnId) (m : Mode) :
    (L.attempt q t m).1.sleepers[k]? = some s := by
  rcases L.attempt_ends_or_sleeps q t m with ⟨-, -, hs, -⟩ | ⟨-, -, hs, -⟩
  · rw [hs, hk]
  · have hne : L.nextTicket ≠ k := Nat.ne_of_gt (h.tickets k s hk)
    simp [hs, ExtTreeMap.getElem?_insert, hne, hk]

/-- **The release of a record wakes nobody who sleeps for another page.** -/
theorem Patient.keeps_releaseRecord {L R : LockTable} (h : L.Patient) {k : Nat} {s : Sleeper}
    (hk : L.sleepers[k]? = some s) {q : PageId} {t : TxnId} (hq : q ≠ s.page)
    (hR : L.releaseRecord q t = .ok R) : R.sleepers[k]? = some s := by
  refine (sleeper_releaseRecord hR k s).2 ⟨hk, fun r hr hstamp => ?_⟩
  obtain ⟨r', hr', hstamp'⟩ := h.attended k s hk
  exact hq (h.distinct q s.page r r' hr hr' (hstamp.symm.trans hstamp'.symm))

theorem Patient.keeps_releaseRecords {k : Nat} {s : Sleeper} {t : TxnId} :
    ∀ (ps : List PageId) (L : LockTable), L.Patient → L.sleepers[k]? = some s → s.page ∉ ps →
      (L.releaseRecords t ps).1.sleepers[k]? = some s := by
  intro ps
  induction ps with
  | nil => exact fun L _ hk _ => hk
  | cons q ps ih =>
    intro L h hk hnot
    unfold LockTable.releaseRecords
    split
    · rename_i R hR
      have hq : q ≠ s.page := fun hq => hnot (by simp [hq])
      exact ih R (h.releaseRecord hR) (h.keeps_releaseRecord hk hq hR)
        fun hmem => hnot (List.mem_cons_of_mem q hmem)
    · exact hk

theorem Patient.keeps_release {L : LockTable} (h : L.Patient) (hc : L.Consistent) {k : Nat}
    {s : Sleeper} (hk : L.sleepers[k]? = some s) {q : PageId} {t : TxnId}
    (hq : q = s.page → L.modeOf s.page t = none) : (L.release q t).1.sleepers[k]? = some s := by
  by_cases hheld : (L.modeOf q t).isSome
  · obtain ⟨R, hR, hrel⟩ := release_of_held hc hheld
    have hne : q ≠ s.page := by
      intro heq
      rw [heq, hq heq] at hheld
      cases hheld
    rw [hrel]
    have hdropped : (L.dropHeld q t).Patient := h.congr rfl rfl rfl rfl
    exact hdropped.keeps_releaseRecord hk hne hR
  · rw [release_of_not_held hc (Option.not_isSome_iff_eq_none.1 hheld)]
    exact hk

theorem Patient.keeps_releaseAll {L : LockTable} (h : L.Patient) (hc : L.Consistent) {k : Nat}
    {s : Sleeper} (hk : L.sleepers[k]? = some s) {t : TxnId} (ht : L.modeOf s.page t = none) :
    (L.releaseAll t).1.sleepers[k]? = some s := by
  rw [releaseAll_eq]
  refine Patient.keeps_releaseRecords _ _ (h.congr rfl rfl rfl rfl) hk ?_
  rw [mem_heldPages hc, ht]
  simp

/-- A call sleeps on as long as no hold on its page is released. -/
theorem Unreleased.sleeper {p : PageId} {L M : LockTable} (h : Unreleased p L M) (hL : Reachable L)
    {k : Nat} {s : Sleeper} (hk : L.sleepers[k]? = some s) (hp : s.page = p) :
    M.sleepers[k]? = some s := by
  subst hp
  induction h with
  | refl => exact hk
  | attempt q t m hrun ih => exact (hrun.reachable hL).inv.2.keeps_attempt ih q t m
  | release q t hrun hq ih =>
    obtain ⟨hc, hpat⟩ := (hrun.reachable hL).inv
    exact hpat.keeps_release hc ih hq
  | releaseAll t hrun ht ih =>
    obtain ⟨hc, hpat⟩ := (hrun.reachable hL).inv
    exact hpat.keeps_releaseAll hc ih ht

/-- The record on which a call sleeps is the record of its page, somebody holds it, and it would refuse
the request now. -/
theorem Patient.exists_record {L : LockTable} (h : L.Patient) {k : Nat} {s : Sleeper}
    (hk : L.sleepers[k]? = some s) :
    ∃ r, L.records[s.page]? = some r ∧ r.stamp = s.stamp ∧ r.lock.isFree = false ∧
      r.lock.tryAcquire s.txn s.mode = none := by
  obtain ⟨r, hr, hstamp⟩ := h.attended k s hk
  have hrefused := h.refused k s hk
  rw [Refuses, lock_of_record hr] at hrefused
  exact ⟨r, hr, hstamp, (h.recorded s.page r hr).2, hrefused⟩

/-- A call that an attempt puts to sleep sleeps on the record that its page has then. -/
theorem sleeper_of_sleeps {L : LockTable} {p : PageId} {t : TxnId} {m : Mode} {k : Nat}
    (h : (L.attempt p t m).2 = .sleeps k) :
    ∃ r, (L.attempt p t m).1.records[p]? = some r ∧
      (L.attempt p t m).1.sleepers[k]? = some ⟨t, p, m, r.stamp⟩ := by
  rcases L.attempt_cases p t m with ⟨l, -, ha⟩ | ⟨-, -, ha⟩ | ⟨hrefused, -, ha⟩
  · rw [ha] at h
    cases h
  · rw [ha] at h
    cases h
  · rw [ha] at h ⊢
    obtain ⟨r, hr, hstamp⟩ := exists_record_of_refused hrefused
    refine ⟨r, hr, ?_⟩
    obtain rfl : L.nextTicket = k := Attempt.sleeps.inj h
    rw [putToSleep, hstamp]
    exact ExtTreeMap.getElem?_insert_self

theorem page_ne_of_release {L : LockTable} (hc : L.Consistent) (ha : L.Attended) {p : PageId}
    {t : TxnId} (hp : (L.modeOf p t).isSome) {k : Nat} {s : Sleeper}
    (hk : (L.release p t).1.sleepers[k]? = some s) : s.page ≠ p := by
  obtain ⟨R, hR, hrel⟩ := release_of_held hc hp
  rw [hrel] at hk
  exact page_ne_of_releaseRecord (L := L.dropHeld p t) (ha.congr rfl rfl) hR hk

theorem page_ne_of_releaseRecords {t : TxnId} {k : Nat} {s : Sleeper} :
    ∀ (ps : List PageId) (L : LockTable), L.Attended → (L.releaseRecords t ps).2 = .ok () →
      (L.releaseRecords t ps).1.sleepers[k]? = some s → s.page ∉ ps := by
  intro ps
  induction ps with
  | nil => simp
  | cons p ps ih =>
    intro L ha hok hk
    unfold LockTable.releaseRecords at hok hk
    split at hk
    · rename_i R hR
      rw [hR] at hok
      have hslept : R.sleepers[k]? = some s :=
        releaseRecords_induct (motive := fun M => M.sleepers[k]? = some s → R.sleepers[k]? = some s)
          (fun _ _ _ hM hK h => hK ((wakes_releaseRecord hM).sleepers k s h)) ps R id hk
      rw [List.mem_cons, not_or]
      exact ⟨page_ne_of_releaseRecord ha hR hslept, ih R (ha.releaseRecord hR) hok hk⟩
    · rename_i e hR
      rw [hR] at hok
      cases hok

/-- **Releasing everything wakes every call that sleeps for one of the pages.** -/
theorem page_ne_of_releaseAll {L : LockTable} (hc : L.Consistent) (ha : L.Attended) {p : PageId}
    {t : TxnId} (hp : (L.modeOf p t).isSome) {k : Nat} {s : Sleeper}
    (hk : (L.releaseAll t).1.sleepers[k]? = some s) : s.page ≠ p := by
  have hok := (releaseAll_spec hc t).1
  rw [releaseAll_eq] at hk hok
  have hdropped : ({ L.stopWaiting t with held := L.held.erase t } : LockTable).Attended :=
    ha.congr rfl rfl
  have hnot := page_ne_of_releaseRecords _ _ hdropped hok hk
  intro heq
  exact hnot (heq ▸ (mem_heldPages hc).2 hp)

/-- **No wake-up is lost.** While no hold on its page is released, a call that was put to sleep sleeps on
the record that its page had then, which is still the record of the page; the record is held, and it
would refuse the request. So it is for every call that sleeps in a reachable table; and a release of a
page leaves no call asleep that waits for it. -/
theorem no_lost_wakeup {L : LockTable} (h : Reachable L) :
    (∀ p t m k M, (L.attempt p t m).2 = .sleeps k → Unreleased p (L.attempt p t m).1 M →
      ∃ r r', (L.attempt p t m).1.records[p]? = some r ∧ M.records[p]? = some r' ∧
        r'.stamp = r.stamp ∧ M.sleepers[k]? = some ⟨t, p, m, r.stamp⟩ ∧
        r'.lock.isFree = false ∧ r'.lock.tryAcquire t m = none) ∧
    (∀ (k : Nat) (s : Sleeper), L.sleepers[k]? = some s →
      ∃ r, L.records[s.page]? = some r ∧ r.stamp = s.stamp ∧ r.lock.isFree = false ∧
        r.lock.tryAcquire s.txn s.mode = none) ∧
    (∀ p t, (L.modeOf p t).isSome → ∀ (k : Nat) (s : Sleeper),
      (L.release p t).1.sleepers[k]? = some s ∨ (L.releaseAll t).1.sleepers[k]? = some s →
      s.page ≠ p) := by
  obtain ⟨hcons, hpat⟩ := h.inv
  refine ⟨?_, fun k s hk => hpat.exists_record hk, ?_⟩
  · intro p t m k M hsleeps hrun
    have hafter := h.attempt p t m
    obtain ⟨r, hr, hk⟩ := sleeper_of_sleeps hsleeps
    have hkept := hrun.sleeper hafter hk rfl
    obtain ⟨r', hr', hstamp, hheld, hrefused⟩ := (hrun.reachable hafter).inv.2.exists_record hkept
    exact ⟨r, r', hr, hr', hstamp, hkept, hheld, hrefused⟩
  · rintro p t hp k s (hk | hk)
    · exact page_ne_of_release hcons hpat.attended hp hk
    · exact page_ne_of_releaseAll hcons hpat.attended hp hk

/-- Two transactions share a page. -/
def sharedPage : LockTable :=
  ((empty.attempt ⟨⟨1⟩, 0⟩ ⟨1⟩ .shared).1.attempt ⟨⟨1⟩, 0⟩ ⟨2⟩ .shared).1

/-- A third one asks to own the page and sleeps, and then a fourth one shares it: the third one sleeps
on, and its request would still be refused. -/
theorem no_lost_wakeup_sharedPage :
    Reachable sharedPage ∧ (sharedPage.attempt ⟨⟨1⟩, 0⟩ ⟨3⟩ .exclusive).2 = .sleeps 0 ∧
    ∃ r, ((sharedPage.attempt ⟨⟨1⟩, 0⟩ ⟨3⟩ .exclusive).1.attempt ⟨⟨1⟩, 0⟩ ⟨4⟩ .shared).1.records[(⟨⟨1⟩, 0⟩ :
        PageId)]? = some r ∧ r.lock.tryAcquire ⟨3⟩ .exclusive = none := by
  have hreach : Reachable sharedPage := .attempt _ _ _ (.attempt _ _ _ .empty)
  have hsleeps : (sharedPage.attempt ⟨⟨1⟩, 0⟩ ⟨3⟩ .exclusive).2 = .sleeps 0 := by cbv
  obtain ⟨-, r, -, hr, -, -, -, hrefused⟩ :=
    (no_lost_wakeup hreach).1 _ _ _ _ _ hsleeps (.attempt ⟨⟨1⟩, 0⟩ ⟨4⟩ .shared .refl)
  exact ⟨hreach, hsleeps, r, hr, hrefused⟩

end LockTable

end PageEngine
