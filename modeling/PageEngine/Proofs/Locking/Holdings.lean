import PageEngine.Proofs.Locking.Wakeups

/-!
# `Proofs/Locking/Holdings.lean` — one lock, call by call

A lock keeps a set of sharers and perhaps an owner. A request is decided by the one or the other, a
release looks for its transaction in both, and each query reads what it needs. `Holdings` is what all of
them are about: which transactions hold the lock, and in which modes. `Holdings.Serves` says what a call
answers and what it changes, from the compatibility of modes and nothing else.

> **whatever is called on a lock that starts free, it answers as the holdings do**, and all its queries
> describe these holdings (`Lock.follows_holdings`).

A call that is refused or fails leaves the holdings alone, and one that succeeds changes the mode of its
own transaction: there is no more in `Holdings.Serves` than these four cases.
-/

set_option autoImplicit false

namespace PageEngine

open Std

/-- A call on a lock. -/
inductive LockCall where
  | acquire (t : TxnId) (m : Mode)
  | release (t : TxnId)

/-- What a call on a lock gives. -/
inductive LockAnswer where
  | granted
  | refused
  | released
  | failed (e : Error)
deriving DecidableEq

namespace Lock

/-- Serves a call; `p` is the page of the lock. -/
def serve (p : PageId) (l : Lock) : LockCall → Lock × LockAnswer
  | .acquire t m =>
    match l.tryAcquire t m with
    | some l => (l, .granted)
    | none => (l, .refused)
  | .release t =>
    match l.release p t with
    | .ok l => (l, .released)
    | .error e => (l, .failed e)

/-- Serves calls one after another, and collects the answers. -/
def serveAll (p : PageId) (l : Lock) : List LockCall → Lock × List LockAnswer
  | [] => (l, [])
  | c :: cs =>
    let (l, a) := l.serve p c
    let (l, as) := l.serveAll p cs
    (l, a :: as)

end Lock

/-! ## Holdings -/

/-- The mode in which each transaction holds a lock. -/
abbrev Holdings := TxnId → Option Mode

namespace Holdings

/-- Nobody holds the lock. -/
def free : Holdings := fun _ => none

/-- Everybody else holds the lock in a mode that is compatible with the one asked for. -/
def Admits (M : Holdings) (t : TxnId) (m : Mode) : Prop :=
  ∀ u n, u ≠ t → M u = some n → n.compatible m = true

/-- What a call answers and what the holdings are after it. -/
inductive Serves (p : PageId) (M : Holdings) : LockCall → LockAnswer → Holdings → Prop
  | grant {t : TxnId} {m : Mode} (h : M.Admits t m) :
      Serves p M (.acquire t m) .granted (Function.update M t (some (Mode.raised (M t) m)))
  | refuse {t : TxnId} {m : Mode} (h : ¬M.Admits t m) : Serves p M (.acquire t m) .refused M
  | release {t : TxnId} (h : (M t).isSome) : Serves p M (.release t) .released (Function.update M t none)
  | unheld {t : TxnId} (h : M t = none) : Serves p M (.release t) (.failed (.lockNotHeld p t)) M

/-- The holdings to which calls lead, with the answers on the way. -/
inductive Follows (p : PageId) : Holdings → List LockCall → List LockAnswer → Holdings → Prop
  | nil {M : Holdings} : Follows p M [] [] M
  | cons {M N R : Holdings} {c : LockCall} {a : LockAnswer} {cs : List LockCall} {as : List LockAnswer} :
      Serves p M c a N → Follows p N cs as R → Follows p M (c :: cs) (a :: as) R

/-- Who can hold a lock together. -/
inductive Together (M : Holdings) : Prop
  | nobody (h : ∀ u, M u = none)
  /-- One transaction holds it exclusively, and no other one holds it. -/
  | owner (t : TxnId) (h : ∀ u, M u = if u = t then some .exclusive else none)
  /-- Some transactions hold it, and all of them share it. -/
  | sharers (t : TxnId) (ht : M t = some .shared) (h : ∀ u, M u = none ∨ M u = some .shared)

end Holdings

/-! ## What the queries of a lock describe -/

namespace Lock

/-- All queries of a lock describe the same holdings. -/
structure Presents (l : Lock) (M : Holdings) : Prop where
  modeOf : ∀ t, l.modeOf t = M t
  holds : ∀ t, l.holds t = (M t).isSome
  holders : ∀ t, t ∈ l.holders ↔ (M t).isSome
  /-- Nobody is listed twice. -/
  nodup : l.holders.Nodup
  isFree : l.isFree = true ↔ ∀ t, M t = none

variable {l : Lock} {t : TxnId} {m : Mode} {p : PageId}

theorem holders_nodup (l : Lock) : l.holders.Nodup := by
  cases ho : l.owner with
  | some h =>
    simp only [holders, ho]
    exact List.nodup_singleton h
  | none =>
    simp only [holders, ho]
    exact ExtTreeSet.distinct_toList.imp fun hab heq => hab (Std.compare_eq_iff_eq.2 heq)

theorem presents_modeOf (l : Lock) : l.Presents l.modeOf where
  modeOf _ := rfl
  holds _ := rfl
  holders _ := mem_holders
  nodup := l.holders_nodup
  isFree := ⟨modeOf_of_isFree, isFree_of_unheld⟩

/-- A lock is free, or owned by one transaction alone, or shared. -/
theorem together_modeOf (l : Lock) : Holdings.Together l.modeOf := by
  cases ho : l.owner with
  | some h =>
    refine .owner h fun u => ?_
    rw [modeOf_of_owner ho]
    simp only [eq_comm]
  | none =>
    by_cases hfree : l.isFree = true
    · exact .nobody (modeOf_of_isFree hfree)
    · obtain ⟨t, ht⟩ := exists_holder (Bool.eq_false_iff.2 hfree)
      have hshared : ∀ u, l.modeOf u = none ∨ l.modeOf u = some .shared := fun u => by
        rw [modeOf_of_shared ho]
        split
        · exact .inr rfl
        · exact .inl rfl
      refine .sharers t ((hshared t).resolve_left fun hnone => ?_) hshared
      rw [mem_holders, hnone] at ht
      cases ht

/-! ## One call -/

/-- A request is granted exactly when everybody else holds the lock in a compatible mode. -/
theorem tryAcquire_isSome_iff : (l.tryAcquire t m).isSome ↔ Holdings.Admits l.modeOf t m := by
  rw [← Option.ne_none_iff_isSome, Ne, tryAcquire_eq_none_iff]
  constructor
  · intro hno u n hu hn
    by_contra hclash
    refine hno ⟨u, n, hu, hn, ?_⟩
    cases m <;> cases n <;> simp [Mode.compatible] at hclash ⊢
  · rintro hall ⟨u, n, hu, hn, hexcl⟩
    have hcompat := hall u n hu hn
    rcases hexcl with rfl | rfl
    · cases n <;> cases hcompat
    · cases hcompat

/-- A release fails exactly when its transaction holds nothing. -/
theorem release?_eq_none_iff (hp : l.Proper) : l.release? t = none ↔ l.modeOf t = none := by
  constructor
  · intro hnone
    by_contra hheld
    have hsome := release?_isSome (Option.isSome_iff_ne_none.2 hheld)
    rw [hnone] at hsome
    cases hsome
  · intro hnone
    by_contra hsome
    obtain ⟨l', hl'⟩ := Option.ne_none_iff_exists'.1 hsome
    rcases release?_cases hl' with ⟨ho, -⟩ | ⟨-, ht, -⟩
    · simp [modeOf_of_owner ho] at hnone
    · -- A sharer of a proper lock is not hidden behind an owner.
      have ho : l.owner = none := hp.resolve_right fun hs => by simp [hs] at ht
      simp [modeOf_of_shared ho, ht] at hnone

/-- **A call on a lock is a call on its holdings.** -/
theorem serve_holdings (p : PageId) (hp : l.Proper) (c : LockCall) :
    Holdings.Serves p l.modeOf c (l.serve p c).2 (l.serve p c).1.modeOf ∧ (l.serve p c).1.Proper := by
  cases c with
  | acquire t m =>
    cases hl : l.tryAcquire t m with
    | some l' =>
      have hmode : l'.modeOf = Function.update l.modeOf t (some (Mode.raised (l.modeOf t) m)) :=
        funext fun u => by rw [modeOf_tryAcquire hl, Function.update_apply]
      simp only [serve, hl, hmode]
      exact ⟨.grant (tryAcquire_isSome_iff.1 (by simp [hl])), hp.tryAcquire hl⟩
    | none =>
      simp only [serve, hl]
      exact ⟨.refuse fun hadmits => by simpa [hl] using tryAcquire_isSome_iff.2 hadmits, hp⟩
  | release t =>
    cases hl : l.release? t with
    | some l' =>
      have hmode : l'.modeOf = Function.update l.modeOf t none :=
        funext fun u => by rw [modeOf_release? hp hl, Function.update_apply]
      have hheld : (l.modeOf t).isSome := by
        rw [Option.isSome_iff_ne_none, Ne, ← release?_eq_none_iff hp, hl]
        exact Option.some_ne_none l'
      simp only [serve, release, hl, hmode]
      exact ⟨.release hheld, hp.release? hl⟩
    | none =>
      simp only [serve, release, hl]
      exact ⟨.unheld ((release?_eq_none_iff hp).1 hl), hp⟩

/-! ## Histories -/

theorem serveAll_holdings (p : PageId) (cs : List LockCall) : ∀ {l : Lock}, l.Proper →
    Holdings.Follows p l.modeOf cs (l.serveAll p cs).2 (l.serveAll p cs).1.modeOf := by
  induction cs with
  | nil => exact fun _ => .nil
  | cons c cs ih =>
    intro l hp
    obtain ⟨hserves, hp'⟩ := serve_holdings p hp c
    exact .cons hserves (ih hp')

/-- **After every history of calls a lock that started free has answered as the holdings did**: a request
was granted exactly when everybody else held the lock in a compatible mode, and raised the mode of its
transaction; a release failed exactly when its transaction held nothing, and took the hold away
otherwise. All queries describe the holdings to which this leads, and these are of nobody, of one
exclusive holder alone, or of sharers. -/
theorem follows_holdings (p : PageId) (cs : List LockCall) :
    ∃ M, Holdings.Follows p Holdings.free cs (free.serveAll p cs).2 M ∧
      (free.serveAll p cs).1.Presents M ∧ M.Together := by
  have hfree : free.modeOf = Holdings.free := funext modeOf_free
  have hfollows := serveAll_holdings p cs proper_free
  rw [hfree] at hfollows
  exact ⟨_, hfollows, presents_modeOf _, together_modeOf _⟩

/-- The only sharer becomes the owner in place, and the mode it asks for later does not lower its own. -/
example (p : PageId) : (free.serveAll p
    [.acquire ⟨1⟩ .shared, .acquire ⟨2⟩ .shared, .acquire ⟨1⟩ .exclusive, .release ⟨2⟩,
      .acquire ⟨1⟩ .exclusive, .acquire ⟨1⟩ .shared, .acquire ⟨2⟩ .shared, .release ⟨2⟩]).2 =
    [.granted, .granted, .refused, .released, .granted, .granted, .refused,
      .failed (.lockNotHeld p ⟨2⟩)] := by
  rfl

end Lock

end PageEngine
