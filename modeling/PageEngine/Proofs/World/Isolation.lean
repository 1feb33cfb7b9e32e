import PageEngine.Proofs.World.Alone

/-!
# `Proofs/World/Isolation.lean` — what a transaction sees

In a run of any number of transactions, with their sections in any order, over a cache of any size:

> **every page shows its own latest change to a transaction, and what was committed where it has made
> none**,

when it is handed to the client and for as long as a call works on it. So running transactions and
aborted ones do not show, and neither does the cache.
-/

set_option autoImplicit false

namespace PageEngine

/-! ## Which section answers with a frame -/

namespace Call

variable {c : Call} {P : Pool Tables} {f : FrameId}

def Answers (c : Call) (f : FrameId) : Prop := c.activity = .finished (.ok (.frame f))

@[simp] theorem not_answers_fail (c : Call) (e : Error) (f : FrameId) : ¬(c.fail e).Answers f := by
  simp [Answers, fail, finish, goOn]

@[simp] theorem answers_finish {c : Call} {r : Except Error Answer} :
    (c.finish r).Answers f ↔ r = .ok (.frame f) := by
  simp [Answers, finish, goOn]

@[simp] theorem answers_goOn {c : Call} {a : Activity} :
    (c.goOn a).Answers f ↔ a = .finished (.ok (.frame f)) := by
  simp [Answers, goOn]

@[simp] theorem not_answers_changed (c : Call) (fs : List FrameId) (f : FrameId) :
    ¬(c.changed fs).Answers f := by
  unfold changed
  split <;> simp

@[simp] theorem not_answers_tryNext (c : Call) (i : Insertion) (f : FrameId) :
    ¬(c.tryNext P i).Answers f := by
  unfold tryNext
  split <;> simp

@[simp] theorem not_answers_collectNext (c : Call) (h : HeapFile) (pages next : Nat)
    (rows : List Tuple) (f : FrameId) : ¬(c.collectNext h pages next rows).Answers f := by
  unfold collectNext
  split <;> simp

theorem not_answers_attemptLock (p : PageId) (m : Mode) (use : Use) (f : FrameId) :
    ¬(c.attemptLock P p m use).2.Answers f := by
  unfold attemptLock
  split
  · cases use <;> simp
  · simp
  · simp

theorem not_answers_touch (h : HeapFile) (ns : List Nat) (f : FrameId) :
    ¬(c.touch P h ns).2.Answers f := by
  unfold touch
  split <;> simp

theorem not_answers_startInsert (s : Store) (f : FrameId) :
    ¬(c.startInsert P s).2.Answers f := by
  cases s with
  | heap h =>
    simp only [startInsert]
    split <;> simp
  | detached h => exact not_answers_touch h _ f

theorem not_answers_startDelete (r : RecordId) (s : Store) (f : FrameId) :
    ¬(c.startDelete P r s).2.Answers f := by
  cases s with
  | heap h =>
    simp only [startDelete]
    split
    · simp
    · split <;> simp
  | detached h => exact not_answers_touch h _ f

theorem not_answers_start (r : Request) (f : FrameId) : ¬(c.start P r).2.Answers f := by
  cases r with
  | lock p m => simp [start]
  | get p a => simp [start]
  | scan h =>
    simp only [start]
    split <;> simp
  | insert table tuple =>
    simp only [start]
    split
    · simp
    · exact not_answers_startInsert _ f
  | delete tuple =>
    simp only [start]
    split
    · simp
    · split
      · simp
      · exact not_answers_startDelete _ _ f
  | insertInto s tuple => exact not_answers_startInsert s f
  | deleteFrom s tuple =>
    simp only [start]
    split
    · exact not_answers_startDelete _ _ f
    · simp
    · exact not_answers_touch _ _ f
  | complete commit => simp [start]

theorem not_answers_useFrame (p : PageId) (g : FrameId) {use : Use} (f : FrameId)
    (huse : use ≠ .deliver) : ¬(c.useFrame P p g use).2.Answers f := by
  cases use with
  | holdLock => simp [useFrame]
  | deliver => exact absurd rfl huse
  | collect h pages next rows => simp [useFrame]
  | place i =>
    simp only [useFrame, place]
    split
    · simp
    · split <;> simp
  | remove h slot =>
    simp only [useFrame, remove]
    split <;> simp

/-- **Only the section that delivers a fetched page answers with a frame.** -/
theorem answers_step (hnone : c.result? = none) (h : (c.step P).2.Answers f) :
    ∃ p, c.activity = .working p f .deliver := by
  unfold step at h
  split at h
  · exact (not_answers_start _ f h).elim
  · exact (not_answers_attemptLock _ _ _ f h).elim
  · split at h
    · rename_i ha _
      rw [Answers, ha] at h
      cases h
    · exact (not_answers_attemptLock _ _ _ f h).elim
  · split at h <;> simp at h
  · rename_i p g use ha
    by_cases huse : use = .deliver
    · subst huse
      obtain rfl : g = f := by simpa [useFrame] using h
      exact ⟨p, ha⟩
    · exact (not_answers_useFrame _ _ f huse h).elim
  · split at h <;> simp at h
  · split at h <;> simp at h
  · split at h <;> simp at h
  · simp at h
  · split at h <;> simp at h
  · simp at h
  · rename_i commit r ha
    rw [answers_finish] at h
    cases r <;> cases h
  · rename_i r ha
    rw [result?, ha] at hnone
    cases hnone

end Call

namespace World

/-! ## Isolation -/

variable {capacity : Nat} {draws : Draws} {d : Tables} {P : Pool Tables} {w : World}

/-- **Isolation.** Whatever was handed to a transaction, what a call works on and what it answers with is
the page as the transaction should see it. -/
theorem reads_isolated (hP : Pool.create capacity draws d = .ok P) (hd : d.Sound)
    (hw : Reachable Action.ThroughPool P w) :
    (∀ later t p x before, w.history = later ++ .got t p x :: before →
      x = History.view d.contents t p before) ∧
    (∀ t k p f use, w.tasks t = some k → k.call.activity = .working p f use →
      (w.pool.page f).id = p ∧
      (w.pool.page f).data = History.view d.contents t p w.history) ∧
    (∀ t k f, w.tasks t = some k → k.call.result? = none →
      (k.call.step w.pool).2.Answers f →
      ∃ p, k.call.activity = .working p f .deliver ∧
        ((k.call.step w.pool).1.page f).data = History.view d.contents t p w.history) := by
  obtain ⟨hinv, hhonest⟩ := Reachable.inv (fun _ ha => ha) hP hd hw
  refine ⟨?_, ?_, ?_⟩
  · intro later t p x before hist
    rw [hist] at hhonest
    exact hhonest.earlier.1
  · intro t k p f use hk ha
    have hact := (hinv.tasks t k hk).activity
    rw [ha] at hact
    exact ⟨hact.2.2.1.image.id_eq, hinv.data_of_working hk ha⟩
  · intro t k f hk hnone hf
    obtain ⟨p, ha⟩ := Call.answers_step hnone hf
    refine ⟨p, ha, ?_⟩
    -- Delivering a page does not change the pool.
    have hpool : (k.call.step w.pool).1 = w.pool := by
      simp only [Call.step, ha, Call.useFrame]
    rw [hpool]
    exact hinv.data_of_working hk ha

/-- The second transaction sees what the first one has committed. -/
theorem reads_isolated_small : ∃ w, Reachable Action.ThroughPool smallPool w ∧
    w.history = smallHistory ∧ counted = History.view smallTables.contents ⟨2⟩ ⟨⟨1⟩, 0⟩
      [.ended ⟨1⟩ true, .edited ⟨1⟩ ⟨⟨1⟩, 0⟩ countUp counted,
        .got ⟨1⟩ ⟨⟨1⟩, 0⟩ (smallTables.contents ⟨⟨1⟩, 0⟩)] := by
  obtain ⟨w, hw, -, hist⟩ := handover_small
  have hw := hw.mono fun _ => Action.PageWise.throughPool
  exact ⟨w, hw, hist, (reads_isolated create_smallPool smallTables_sound hw).1 [] ⟨2⟩ _ _ _ hist⟩

end World

end PageEngine
