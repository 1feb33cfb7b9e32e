import PageEngine.Proofs.World.Effects

/-!
# `Proofs/World/Heeding.lean` — what a call heeds, and what others leave to it

A call finds out things that later sections build on: the files that it goes through are registered, a page
that it may give back again was not changed before, and what it is about to install is what it has written.
Nothing of this says what the bytes of a page mean, so it holds also where pages are written out early.

> **what a call heeds stays true while others run** (`ActivityHeeds.leaves`), and each of its sections heeds
> what the next one needs (`heeds_start` and those after it).

Others run by steps that lose no page and that write only to frames of pages they hold exclusively
(`Pool.Onward`).
-/

set_option autoImplicit false

namespace PageEngine

open Std

/-! ## What a call heeds -/

/-- What a call of `t` heeds at its next section: an insert gives back only a page that `t` has not changed, a page
that is worked on is held, and what is to be installed is the draft. -/
def ActivityHeeds (P : Pool Tables) (h : History) (t : TxnId) (draft : Option PageData) : Activity → Prop
  | .start _ => True
  | .locking p _ use => UseInv P h t p use
  | .sleeping _ p _ use => UseInv P h t p use
  | .fetching p use => UseInv P h t p use
  | .working p f use =>
    UseInv P h t p use ∧ f.index < P.frames.size ∧ (P.page f).id = p ∧ (P.locks.modeOf p t).isSome
  | .dropping i => Registered P i ∧ History.own t i.page h = none
  | .counting i => Registered P i
  | .growing i => Registered P i
  | .installing [] => True
  | .installing (f :: _) => draft = some (P.page f).data
  | .releasing .. => ∀ p, History.own t p h = none
  | .ending .. => ∀ p, History.own t p h = none
  | .finished _ => False

/-- A step of `who` from one pool to the next: no page gets lost, and the data of a frame changes only if `who`
holds its page exclusively. -/
structure Pool.Onward (who : Option TxnId) (P P' : Pool Tables) : Prop where
  sound : P'.storage.Sound
  size : P.frames.size ≤ P'.frames.size
  ids : ∀ f : FrameId, f.index < P.frames.size → (P'.page f).id = (P.page f).id
  data : ∀ f : FrameId, f.index < P.frames.size → (P'.page f).data = (P.page f).data ∨
    ∃ t, who = some t ∧ P.locks.modeOf (P.page f).id t = some .exclusive
  hasPage : ∀ p, P.storage.HasPage p → P'.storage.HasPage p
  catalog : ∀ (t : TableId) (s : Store), P.storage.catalog[t]? = some s → P'.storage.catalog[t]? = some s
  housed : ∀ f : FrameId, P.frames.size ≤ f.index → f.index < P'.frames.size →
    P'.storage.HasPage (P'.page f).id

/-- What others leave to `u`: its modes and its changes. -/
structure LeavesTo (u : TxnId) (P P' : Pool Tables) (h h' : History) : Prop where
  modes : ∀ p, P'.locks.modeOf p u = P.locks.modeOf p u
  own : ∀ p, History.own u p h' = History.own u p h

section Heeding

variable {P P' : Pool Tables} {h h' : History} {t u : TxnId} {p : PageId} {who : Option TxnId}

theorem UseInv.mono {use : Use} (hu : UseInv P h u p use)
    (hcat : ∀ (x : TableId) (s : Store), P.storage.catalog[x]? = some s → P'.storage.catalog[x]? = some s)
    (hown : ∀ p, History.own u p h' = History.own u p h) : UseInv P' h' u p use := by
  cases use with
  | place i => exact ⟨hu.1, hcat _ _ hu.2.1, fun hb => (hown p).trans (hu.2.2 hb)⟩
  | _ => trivial

theorem useInv_of_ne {use : Use} (hu : ∀ i, use ≠ .place i) : UseInv P h u p use := by
  cases use with
  | place i => exact absurd rfl (hu i)
  | _ => trivial

/-- An insert goes on to the next page or to growing the file, and notes whether it holds the page. -/
theorem heeds_tryNext {c : Call} {i : Insertion} {draft : Option PageData} (hc : c.txn = u) (hreg : Registered P i)
    (hown : ∀ p, History.own u p h ≠ none → P.locks.modeOf p u = some .exclusive) :
    ActivityHeeds P h u draft (c.tryNext P i).activity := by
  unfold Call.tryNext
  split
  · refine ⟨rfl, hreg, fun hheld => ?_⟩
    by_contra hchanged
    simp [LockTable.holds, hc, hown _ hchanged] at hheld
  · exact hreg

theorem ActivityHeeds.leaves {draft : Option PageData} {a : Activity} (ha : ActivityHeeds P h u draft a)
    (hgrip : ∀ f, a.Changes f → f.index < P.frames.size ∧ P.locks.modeOf (P.page f).id u = some .exclusive)
    (hwho : who ≠ some u) (hm : P.Onward who P') (hl : LeavesTo u P P' h h') : ActivityHeeds P' h' u draft a := by
  cases a with
  | start r => trivial
  | locking p m use => exact UseInv.mono ha hm.catalog hl.own
  | sleeping ticket p m use => exact UseInv.mono ha hm.catalog hl.own
  | fetching p use => exact UseInv.mono ha hm.catalog hl.own
  | working p f use =>
    obtain ⟨huse, hlt, hid, hheld⟩ := ha
    exact ⟨huse.mono hm.catalog hl.own, Nat.lt_of_lt_of_le hlt hm.size, (hm.ids f hlt).trans hid,
      by rw [hl.modes]; exact hheld⟩
  | dropping i => exact ⟨hm.catalog _ _ ha.1, (hl.own _).trans ha.2⟩
  | counting i => exact hm.catalog _ _ ha
  | growing i => exact hm.catalog _ _ ha
  | installing fs =>
    cases fs with
    | nil => trivial
    | cons f fs =>
      -- Nobody else writes to the frame, whose page `u` holds exclusively.
      obtain ⟨hlt, hX⟩ := hgrip f ⟨fs, rfl⟩
      rcases hm.data f hlt with hsame | ⟨t, ht, hXt⟩
      · exact ha.trans (congrArg some hsame.symm)
      · exact absurd (ht.trans (congrArg some (LockTable.eq_of_modeOf_exclusive hX (by rw [hXt]; rfl)))) hwho
  | releasing commit r => exact fun p => (hl.own p).trans (ha p)
  | ending commit r => exact fun p => (hl.own p).trans (ha p)
  | finished r => exact ha.elim

theorem ActivityHeeds.history {draft : Option PageData} {a : Activity} (ha : ActivityHeeds P h u draft a)
    (hown : ∀ p, History.own u p h' = History.own u p h) : ActivityHeeds P h' u draft a := by
  cases a with
  | start r => trivial
  | locking p m use => exact UseInv.mono ha (fun _ _ hs => hs) hown
  | sleeping ticket p m use => exact UseInv.mono ha (fun _ _ hs => hs) hown
  | fetching p use => exact UseInv.mono ha (fun _ _ hs => hs) hown
  | working p f use => exact ⟨ha.1.mono (fun _ _ hs => hs) hown, ha.2⟩
  | dropping i => exact ⟨ha.1, (hown _).trans ha.2⟩
  | counting i => exact ha
  | growing i => exact ha
  | installing fs => cases fs <;> exact ha
  | releasing commit r => exact fun p => (hown p).trans (ha p)
  | ending commit r => exact fun p => (hown p).trans (ha p)
  | finished r => exact ha

/-! ### The sections of a call -/

theorem heeds_start {c : Call} {q : Request} {draft : Option PageData} (hd : P.storage.Sound)
    (hthrough : (Action.request t q).ThroughPool) (hq : ∀ commit, q ≠ .complete commit)
    (hlive : (c.start P q).2.result? = none) : ActivityHeeds P h u draft (c.start P q).2.activity := by
  rcases start_cases c hd hthrough hq with ⟨res, ha⟩ | ⟨p, m, use, ha, huse⟩ | ⟨i, ha, -, hreg⟩
  · rw [Call.result?_eq_some.2 ha] at hlive
    cases hlive
  · rw [ha]
    exact useInv_of_ne huse
  · rw [ha]
    exact hreg

theorem heeds_attempt {c : Call} {m : Mode} {use : Use} {draft : Option PageData} (huse : UseInv P h u p use)
    (hlive : (c.attemptLock P p m use).2.result? = none) :
    ActivityHeeds (c.attemptLock P p m use).1 h u draft (c.attemptLock P p m use).2.activity := by
  unfold Call.attemptLock at hlive ⊢
  split at hlive
  · cases use with
    | holdLock => cases hlive
    | place i => exact huse
    | _ => trivial
  · exact UseInv.mono huse (fun _ _ hs => hs) fun _ => rfl
  · cases hlive

theorem heeds_collectNext {c : Call} {x : HeapFile} {pages next : Nat} {rows : List Tuple}
    {draft : Option PageData} (hlive : (c.collectNext x pages next rows).result? = none) :
    ActivityHeeds P h u draft (c.collectNext x pages next rows).activity := by
  rcases collectNext_cases c x pages next rows with hnext | hnext
  · rw [hnext]
    trivial
  · rw [hnext] at hlive
    cases hlive

/-- A call that works on a page heeds what it has written, or whether it may give the page back. -/
theorem heeds_useFrame {k : Task} {c : Call} {f : FrameId} {use : Use} (hc : c.txn = u) (hinst : c.installs = true)
    (ha : k.call.activity = .working p f use) (huse : UseInv P h u p use)
    (hown : ∀ p, History.own u p h ≠ none → P.locks.modeOf p u = some .exclusive)
    (hlive : (c.useFrame P p f use).2.result? = none) :
    ActivityHeeds (c.useFrame P p f use).1 h u (k.nextDraft (c.useFrame P p f use).1)
      (c.useFrame P p f use).2.activity := by
  have hdraft : ∀ Q, k.nextDraft Q = some (Q.page f).data := fun Q => by simp only [Task.nextDraft, ha]
  rw [hdraft]
  cases use with
  | holdLock => cases hlive
  | deliver => cases hlive
  | collect x pages next rows => exact heeds_collectNext hlive
  | place i =>
    obtain ⟨hpage, hreg, hfree⟩ := huse
    simp only [Call.useFrame, Call.place] at hlive ⊢
    split
    · simp only [Call.changed, hinst, if_true]
      rfl
    · split
      · exact heeds_tryNext hc hreg hown
      · rename_i hheld
        exact ⟨hreg, hpage ▸ hfree (by simpa using hheld)⟩
  | remove x slot =>
    simp only [Call.useFrame, Call.remove] at hlive ⊢
    split
    · simp only [Call.changed, hinst, if_true]
      rfl
    · rename_i hfree
      rw [if_neg hfree] at hlive
      cases hlive

end Heeding

/-! ## Steps from one pool to the next -/

section Onward

variable {P P' : Pool Tables} {t : TxnId} {f : FrameId} {who : Option TxnId}

theorem Pool.onward_of_grown (hf : P'.frames = P.frames) (hg : P.storage.Grown P'.storage) : P.Onward who P' where
  sound := hg.sound
  size := Nat.le_of_eq (by rw [hf])
  ids g _ := congrArg Page.id (Pool.page_congr hf g)
  data g _ := .inl (congrArg Page.data (Pool.page_congr hf g))
  hasPage := hg.hasPage
  catalog := hg.catalog
  housed g hge hlt := absurd hlt (by rw [hf]; exact Nat.not_lt.2 hge)

/-- Frames are changed where they are, and only those of pages that `who` holds exclusively get other data. -/
theorem Pool.onward_of_same (hd : P.storage.Sound) (hs : P'.storage = P.storage)
    (hsize : P'.frames.size = P.frames.size)
    (hframes : ∀ g : FrameId, g.index < P.frames.size → (P'.page g).id = (P.page g).id ∧
      ((P'.page g).data = (P.page g).data ∨ ∃ t, who = some t ∧ P.locks.modeOf (P.page g).id t = some .exclusive)) :
    P.Onward who P' where
  sound := hs ▸ hd
  size := Nat.le_of_eq hsize.symm
  ids g hg := (hframes g hg).1
  data g hg := (hframes g hg).2
  hasPage q hq := hs ▸ hq
  catalog x s hx := hs ▸ hx
  housed g hge hlt := absurd hlt (by rw [hsize]; exact Nat.not_lt.2 hge)

theorem Pool.Onward.trans {R : Pool Tables} (h : P.Onward who P') (hl : P'.locks = P.locks)
    (h' : P'.Onward who R) : P.Onward who R where
  sound := h'.sound
  size := Nat.le_trans h.size h'.size
  ids g hg := (h'.ids g (Nat.lt_of_lt_of_le hg h.size)).trans (h.ids g hg)
  data g hg := by
    rcases h'.data g (Nat.lt_of_lt_of_le hg h.size) with hsame | ⟨t, ht, hX⟩
    · exact (h.data g hg).imp_left hsame.trans
    · rw [hl, h.ids g hg] at hX
      exact .inr ⟨t, ht, hX⟩
  hasPage p hp := h'.hasPage p (h.hasPage p hp)
  catalog x s hs := h'.catalog x s (h.catalog x s hs)
  housed g hge hlt := by
    by_cases hg : g.index < P'.frames.size
    · rw [h'.ids g hg]
      exact h'.hasPage _ (h.housed g hge hg)
    · exact h'.housed g (Nat.not_lt.1 hg) hlt

theorem Pool.Fetched.onward {q : PageId} (h : P.Fetched q P') (hd : P.storage.Sound) : P.Onward who P' where
  sound := h.storage ▸ hd
  size := h.size
  ids g hg := congrArg Page.id (h.old g hg)
  data g hg := .inl (congrArg Page.data (h.old g hg))
  hasPage p hp := h.storage ▸ hp
  catalog x s hx := h.storage ▸ hx
  housed g hge hlt := by
    obtain ⟨hpage, hq, -⟩ := h.new g hge hlt
    rw [hpage, h.storage]
    exact hq

theorem Pool.Marked.onward (h : P.Marked t f P') (hd : P.storage.Sound) : P.Onward who P' := by
  refine Pool.onward_of_same hd h.storage h.size fun g _ => ?_
  by_cases hg : g = f
  · rw [hg, h.self]
    exact ⟨rfl, .inl rfl⟩
  · rw [h.other g hg]
    exact ⟨rfl, .inl rfl⟩

theorem Pool.onward_setPage (hd : P.storage.Sound) (hX : P.locks.modeOf (P.page f).id t = some .exclusive)
    {x : Page} (hx : x.id = (P.page f).id) : P.Onward (some t) (P.setPage f x) := by
  refine Pool.onward_of_same hd rfl (P.size_setPage f x) fun g _ => ?_
  rw [Pool.page_setPage]
  split
  · rename_i hg
    rw [hg.1]
    exact ⟨hx, .inr ⟨t, rfl, hX⟩⟩
  · exact ⟨rfl, .inl rfl⟩

/-- Pages are written out, and their frames are cleaned or captured. -/
theorem Pool.Tidied.onward {φ : Page → Page} (h : Pool.Tidied P P' φ) (hid : ∀ x, (φ x).id = x.id)
    (hdata : ∀ x, (φ x).data = x.data) (hd : P'.storage.Sound)
    (hpages : ∀ p, P.storage.HasPage p → P'.storage.HasPage p) : P.Onward who P' where
  sound := hd
  size := Nat.le_of_eq h.size.symm
  ids g _ := by
    rcases h.frames g with hsame | hsame <;> rw [hsame]
    exact hid _
  data g _ := .inl (h.data hdata g)
  hasPage := hpages
  catalog x s hx := h.catalog ▸ hx
  housed g hge hlt := absurd hlt (by rw [h.size]; exact Nat.not_lt.2 hge)

theorem Pool.onward_flushIn (hd : P.storage.Sound) (hP : P.Filed)
    (hwithin : ∀ (p : PageId) (f : FrameId), P.resident[p]? = some f → P.storage.HasPage p) {ps : List PageId}
    (hps : ps.Nodup) : P.Onward who (P.flushIn ps).1 := by
  obtain ⟨Q, hQ, hclean, hsound⟩ := Pool.flushIn_sound hd hP hwithin hps
  have htidy := Pool.flushIn_tidied ps P
  rw [hQ] at htidy ⊢
  refine htidy.onward Page.markClean_id Page.markClean_data hsound fun p hp => ?_
  have hlonger : P.storage.NoShorter Q.storage := fun t =>
    Nat.le_of_eq ((hclean.overwritten ⟨hP, hd.apart_files, hwithin⟩ hps).lengths t).symm
  exact hlonger.hasPage hp

theorem Pool.onward_flushHeld (hd : P.storage.Sound) (hP : P.Filed)
    (hwithin : ∀ (p : PageId) (f : FrameId), P.resident[p]? = some f → P.storage.HasPage p) (t : TxnId) :
    P.Onward who (P.flushHeld t).1 := by
  obtain ⟨-, hw⟩ := Pool.flushHeld_spec hd hP hwithin t
  exact (Pool.flushHeld_tidied hP t).1.onward Page.saved_id Page.saved_data hw.sound fun p hp =>
    ⟨by rw [hw.pages]; exact hp.1, hp.2⟩

theorem Pool.onward_restoreHeld (hd : P.storage.Sound) (hP : P.Filed) (hl : P.locks.Consistent) (t : TxnId) :
    P.Onward (some t) (P.restoreHeld t) := by
  obtain ⟨hs, hre⟩ := Pool.restoreHeld_spec hP t
  refine Pool.onward_of_same hd hs hre.size fun g _ => ?_
  rw [Pool.page_restoreHeld hP hl]
  split
  · rename_i hrest
    have hX : P.locks.modeOf (P.page g).id t = some .exclusive := by
      simpa using (Bool.and_eq_true_iff.1 hrest).1
    exact ⟨rfl, .inr ⟨t, rfl, hX⟩⟩
  · exact ⟨rfl, .inl rfl⟩

/-- **Every section of a call is a step of its transaction.** -/
theorem Effect.onward {k : Task} {k' : Option Task} (h : Effect P t k P' k') (hd : P.storage.Sound) (hP : P.Filed)
    (hl : P.locks.Consistent) (hwithin : ∀ (p : PageId) (f : FrameId), P.resident[p]? = some f → P.storage.HasPage p)
    (hgrip : ∀ q f use, k.call.activity = .working q f use → use.Writes →
      P.locks.modeOf (P.page f).id t = some .exclusive) : P.Onward (some t) P' := by
  cases h with
  | quiet _ hframes _ hstorage => exact Pool.onward_of_grown hframes (by rw [hstorage]; exact Tables.grown_refl hd)
  | fetches q use _ hfetched => exact hfetched.onward hd
  | drafts q f use d ha hw hP' => exact hP' ▸ Pool.onward_setPage hd (hgrip q f use ha hw) rfl
  | installs f _ hm => exact hm.onward hd
  | loses f _ hm => exact hm.onward hd
  | grows i _ hframes _ _ hgrown => exact Pool.onward_of_grown hframes hgrown
  | settles commit _ hP' =>
    cases commit with
    | false => exact hP' ▸ Pool.onward_restoreHeld hd hP hl t
    | true => exact hP' ▸ Pool.onward_flushHeld hd hP hwithin t

end Onward

/-! ## What a section does to the locks -/

section Locks

variable {P P' : Pool Tables} {t u : TxnId} {a : Activity} {p : PageId}

theorem LockEffect.other (h : LockEffect P t a P') (hl : P.locks.Consistent) (hu : u ≠ t) (p : PageId) :
    P'.locks.modeOf p u = P.locks.modeOf p u := by
  rcases h with hsame | ⟨q, m, hasks⟩ | ⟨i, -, hdrops⟩ | ⟨commit, r, -, hback⟩
  · rw [hsame]
  · rw [hasks, LockTable.modeOf_attempt, if_neg fun hc => hu hc.2.2]
  · rw [hdrops, LockTable.modeOf_release hl, if_neg fun hc => hu hc.2]
  · rw [hback, (LockTable.releaseAll_spec hl t).2, if_neg hu]

/-- What is held exclusively stays so until it is given back. -/
theorem LockEffect.exclusive (h : LockEffect P t a P') (hl : P.locks.Consistent)
    (hX : P.locks.modeOf p t = some .exclusive) (hdrops : ∀ i, a = .dropping i → i.page ≠ p)
    (hends : ∀ commit r, a ≠ .releasing commit r) : P'.locks.modeOf p t = some .exclusive := by
  rcases h with hsame | ⟨q, m, hasks⟩ | ⟨i, ha, hrelease⟩ | ⟨commit, r, ha, -⟩
  · rw [hsame, hX]
  · rw [hasks, LockTable.modeOf_attempt]
    split
    · rename_i hc
      rw [← hc.2.1, hX, Mode.raised_exclusive]
    · exact hX
  · rw [hrelease, LockTable.modeOf_release hl, if_neg fun hc => hdrops i ha hc.1.symm, hX]
  · exact absurd ha (hends commit r)

end Locks

/-! ## What a section adds to the history -/

section Events

variable {k : Task} {P P' : Pool Tables} {c : Call} {h : History} {u : TxnId} {p : PageId}

/-- A section changes pages for its own transaction. -/
theorem Task.own_events_other (hu : u ≠ k.call.txn) :
    History.own u p (k.events P P' c ++ h) = History.own u p h := by
  unfold Task.events
  split
  · exact if_neg (Ne.symm hu)
  · rfl
  · split <;> rfl
  · split
    · exact if_neg fun hboth => hu hboth.1.symm
    · rfl
  · rfl

theorem Task.own_events_still (hk : k.call.activity.Still) :
    History.own u p (k.events P P' c ++ h) = History.own u p h := by
  unfold Task.events
  split
  · rename_i commit ha
    rw [ha] at hk
    exact hk.elim
  · rfl
  · split <;> rfl
  · rename_i f fs ha
    rw [ha] at hk
    exact hk.elim
  · rfl

end Events

end PageEngine
