import PageEngine.Proofs.World.Storing

/-!
# `Proofs/World/Sections.lean` — every section serves its call

The next section of a call is told by its activity. For each activity this file shows that the section
keeps the invariant, leaves to the other transactions what they rely on, and leaves of its own call what
the activity after it needs:

> **every section of every call serves it** (`servesNext`), and so does a client that overwrites the page
> that it fetches (`serves_editPage`).
-/

set_option autoImplicit false

namespace PageEngine

open Std

/-- The next section of a task serves it. -/
def ServesNext (origin : PageId → PageData) (t : TxnId) (others : FrameId → Prop) (P : Pool Tables)
    (h : History) (k : Task) : Prop :=
  Serves origin t others P h (k.call.step P).1
    (k.events P (k.call.step P).1 (k.call.step P).2 ++ h)
    (k.after (k.call.step P).1 (k.call.step P).2)

section Sections

variable {origin : PageId → PageData} {t : TxnId} {others : FrameId → Prop} {P P' : Pool Tables}
  {h h' : History} {k : Task} {p : PageId} {f : FrameId}

/-! ## What a section leaves of a call -/

theorem Keeps.mono {ch ch' : FrameId → Prop} (hk : Keeps origin t ch P h P' h')
    (hch : ∀ g, ch g → ch' g) : Keeps origin t ch' P h P' h' :=
  hk.trans (hk.pool.keeps_refl hch)

theorem Keeps.ends (hk : Keeps origin t others P h P' h') :
    Serves origin t others P h P' h' none where
  keeps := hk.mono fun _ => Or.inl
  task k' hk' := by cases hk'

/-- A call that goes on has to know what its next activity needs. -/
theorem Keeps.goesOn (hk : Keeps origin t others P h P' h') (hkt : TaskInv P h t k) {a : Activity}
    {draft : Option PageData} (ha : ActivityInv P' h' t k.rule.isSome draft a) :
    Serves origin t others P h P' h' (some { k with call := k.call.goOn a, draft }) where
  keeps := hk.mono fun _ => Or.inl
  task k' hk' := by
    rw [Option.some.injEq] at hk'
    subst hk'
    exact ⟨hkt.txn, hkt.installs, ha⟩

theorem servesNext_of {c : Call} (evs : List Event) (hstep : k.call.step P = (P', c))
    (hev : k.events P P' c = evs) (hs : Serves origin t others P h P' (evs ++ h) (k.after P' c)) :
    ServesNext origin t others P h k := by
  rw [ServesNext, hstep]
  dsimp only
  rw [hev]
  exact hs

theorem servesNext_finish (evs : List Event) (r : Except Error Answer)
    (hstep : k.call.step P = (P', k.call.finish r)) (hev : k.events P P' (k.call.finish r) = evs)
    (hkeep : Keeps origin t others P h P' (evs ++ h)) : ServesNext origin t others P h k :=
  servesNext_of evs hstep hev hkeep.ends

theorem servesNext_goOn (evs : List Event) (a : Activity) (hk : TaskInv P h t k)
    (hres : ∀ r, a ≠ .finished r) (hstep : k.call.step P = (P', k.call.goOn a))
    (hev : k.events P P' (k.call.goOn a) = evs)
    (hkeep : Keeps origin t others P h P' (evs ++ h))
    (ha : ActivityInv P' (evs ++ h) t k.rule.isSome (k.nextDraft P') a) :
    ServesNext origin t others P h k := by
  refine servesNext_of evs hstep hev ?_
  have hafter : k.after P' (k.call.goOn a) =
      some { k with call := k.call.goOn a, draft := k.nextDraft P' } := by
    have hnone : (k.call.goOn a).result? = none := by
      unfold Call.result? Call.goOn
      split
      · rename_i r hr
        exact absurd hr (hres r)
      · rfl
    rw [Task.after, hnone]
    rfl
  rw [hafter]
  exact hkeep.goesOn hk ha

theorem PoolInv.keeps_same (hi : PoolInv origin others P h) : Keeps origin t others P h P h :=
  hi.keeps_refl fun _ => id

/-! ## Beginning -/

/-- An insert goes on to the next page, whose lock it has to get, or grows the file. -/
theorem activityInv_tryNext (hi : PoolInv origin others P h) {c : Call} (hc : c.txn = t)
    {i : Insertion} (hreg : Registered P i) (edits : Bool) (draft : Option PageData) :
    ∃ a, c.tryNext P i = c.goOn a ∧ (∀ r, a ≠ .finished r) ∧ ActivityInv P h t edits draft a := by
  by_cases hlt : i.next < i.pages
  · refine ⟨.locking i.page .exclusive (.place { i with heldBefore := P.locks.holds i.page c.txn }),
      by simp only [Call.tryNext, if_pos hlt], by simp, ⟨rfl, hreg, ?_⟩, fun _ => rfl⟩
    intro hheld
    -- A page that was changed is held.
    cases hown : History.own t i.page h with
    | none => rfl
    | some d =>
      have hX := hi.exclusive_of_own hown
      simp [LockTable.holds, hc, hX] at hheld
  · exact ⟨.growing i, by simp only [Call.tryNext, if_neg hlt], by simp, hreg⟩

/-- A scan goes on to the next page, or ends. -/
theorem collectNext_cases (c : Call) (x : HeapFile) (pages next : Nat) (rows : List Tuple) :
    c.collectNext x pages next rows =
        c.goOn (.locking ⟨x.table, next⟩ .shared (.collect x pages next rows)) ∨
      c.collectNext x pages next rows = c.finish (.ok (.rows rows)) := by
  unfold Call.collectNext
  split
  · exact .inl rfl
  · exact .inr rfl

/-- The first section of a request: at most it looks up a store or counts pages, unless it ends the
transaction. -/
theorem servesNext_start (hi : PoolInv origin others P h) (hk : TaskInv P h t k)
    (hfree : Unclaimed others P t) {r : Request} (ha : k.call.activity = .start r) :
    ServesNext origin t others P h k := by
  have hinv := hk.activity
  rw [ha] at hinv
  obtain ⟨hthrough, hedit⟩ := hinv
  have hstart : k.call.step P = k.call.start P r := by simp only [Call.step, ha]
  -- A request that fails at once, or begins without an event.
  have hfails : ∀ e, k.call.start P r = (P, k.call.fail e) → k.events P P (k.call.fail e) = [] →
      ServesNext origin t others P h k :=
    fun e he hev => servesNext_finish [] (.error e) (hstart.trans he) hev hi.keeps_same
  have hgoes : ∀ a, k.call.start P r = (P, k.call.goOn a) → (∀ x, a ≠ .finished x) →
      k.events P P (k.call.goOn a) = [] → ActivityInv P h t k.rule.isSome (k.nextDraft P) a →
      ServesNext origin t others P h k :=
    fun a he hne hev hinv => servesNext_goOn [] a hk hne (hstart.trans he) hev hi.keeps_same hinv
  cases r with
  | lock q m =>
    refine hgoes (.locking q m .holdLock) rfl (by simp) (by simp only [Task.events, ha])
      ⟨trivial, ?_⟩
    rintro (hw | he)
    · exact hw.elim
    · obtain ⟨x, hx⟩ := hedit he
      cases hx
  | get q a =>
    refine hgoes (.locking q a.mode .deliver) rfl (by simp) (by simp only [Task.events, ha])
      ⟨trivial, ?_⟩
    rintro (hw | he)
    · exact hw.elim
    · obtain ⟨x, hx⟩ := hedit he
      cases hx
      rfl
  | scan x =>
    have hplain : k.rule.isSome ≠ true := by
      intro he
      obtain ⟨y, hy⟩ := hedit he
      cases hy
    cases hn : x.numPages P.storage.disk with
    | error e =>
      exact hfails e (by simp only [Call.start, hn]) (by simp only [Task.events, ha])
    | ok pages =>
      rcases collectNext_cases k.call x pages 0 [] with hnext | hnext
      · refine hgoes (.locking ⟨x.table, 0⟩ .shared (.collect x pages 0 []))
          (by simp only [Call.start, hn, hnext]) (by simp) (by simp only [Task.events, ha])
          ⟨trivial, ?_⟩
        rintro (hw | he)
        · exact hw.elim
        · exact absurd he hplain
      · exact servesNext_finish [] (.ok (.rows []))
          (hstart.trans (by simp only [Call.start, hn, hnext]))
          (by simp only [Task.events, ha]) hi.keeps_same
  | insert table tuple =>
    cases hs : P.storage.store table with
    | error e => exact hfails e (by simp only [Call.start, hs]) (by simp only [Task.events, ha])
    | ok s =>
      obtain ⟨x, rfl, hx⟩ := hi.sound.heap_of_store hs
      by_cases hw : k.call.tuple.data.size = x.layout.width
      · exact hgoes (.counting { heap := x })
          (by simp only [Call.start, hs, Call.startInsert, if_pos hw]) (by simp)
          (by simp only [Task.events, ha]) hx
      · exact hfails .wrongTupleWidth (by simp only [Call.start, hs, Call.startInsert, if_neg hw])
          (by simp only [Task.events, ha])
  | delete tuple =>
    cases hr : tuple.recordId with
    | none =>
      exact hfails .noRecordId (by simp only [Call.start, hr]) (by simp only [Task.events, ha])
    | some r =>
      cases hs : P.storage.store r.page.table with
      | error e =>
        exact hfails e (by simp only [Call.start, hr, hs]) (by simp only [Task.events, ha])
      | ok s =>
        obtain ⟨x, rfl, hx⟩ := hi.sound.heap_of_store hs
        have hdel : k.call.start P (.delete tuple) = k.call.startDelete P r (.heap x) := by
          simp only [Call.start, hr, hs]
        by_cases ht : r.page.table = x.table
        · by_cases hslot : x.layout.slots ≤ r.slot
          · exact hfails .slotOutOfRange (hdel.trans (by simp only [Call.startDelete, ht, ne_eq,
              not_true_eq_false, if_false, if_pos hslot])) (by simp only [Task.events, ha])
          · exact hgoes (.locking r.page .exclusive (.remove x r.slot))
              (hdel.trans (by simp only [Call.startDelete, ht, ne_eq, not_true_eq_false, if_false,
                if_neg hslot])) (by simp) (by simp only [Task.events, ha]) ⟨trivial, fun _ => rfl⟩
        · exact hfails .foreignTuple (hdel.trans (by simp only [Call.startDelete, ne_eq, ht,
            not_false_eq_true, if_true])) (by simp only [Task.events, ha])
  | insertInto s tuple => exact hthrough.elim
  | deleteFrom s tuple => exact hthrough.elim
  | complete commit =>
    have hstep : k.call.step P = ((P.settlePages t commit).1,
        k.call.goOn (.releasing commit (P.settlePages t commit).2)) := by
      rw [hstart]
      simp only [Call.start, hk.txn]
    refine servesNext_goOn [.ended t commit] _ hk (by simp) hstep
      (by simp only [Task.events, ha, hk.txn]) ?_ (fun q => if_pos rfl)
    cases commit with
    | true => exact hi.keeps_commit hfree
    | false => exact hi.keeps_abort hfree

/-! ## Locking -/

theorem Mode.raised_of_exclusive (o : Option Mode) : Mode.raised o .exclusive = .exclusive := by
  rcases o with _ | o
  · rfl
  · cases o <;> rfl

/-- An attempt of `t` keeps what the other transactions hold, and what `t` holds exclusively. -/
theorem PoolInv.keeps_attempt (hi : PoolInv origin others P h) (p : PageId) (t : TxnId) (m : Mode) :
    Keeps origin t others P h (P.withLocks (P.locks.attempt p t m).1) h := by
  refine hi.keeps_relock (hi.locks.attempt p t m) ?_ ?_
  · intro q s hs
    rw [LockTable.modeOf_attempt, if_neg fun hc => hs hc.2.2]
  · intro q d hd
    have hX := hi.exclusive_of_own hd
    rw [LockTable.modeOf_attempt]
    split
    · rename_i hc
      rw [← hc.2.1, hX, Mode.raised_exclusive]
    · exact hX

theorem servesNext_attempt (hi : PoolInv origin others P h) (hk : TaskInv P h t k) {m : Mode}
    {use : Use} (hstep : k.call.step P = k.call.attemptLock P p m use)
    (hev : ∀ P' c, k.events P P' c = []) (huse : UseInv P h t p use)
    (hmode : use.Writes ∨ k.rule.isSome = true → m = .exclusive) :
    ServesNext origin t others P h k := by
  have hkeep := hi.keeps_attempt p t m
  have hgrant := P.locks.modeOf_attempt p t m p t
  rcases hatt : P.locks.attempt p t m with ⟨L, r⟩
  rw [hatt] at hkeep hgrant
  cases r with
  | granted =>
    rw [if_pos ⟨rfl, rfl, rfl⟩] at hgrant
    by_cases hhold : use = .holdLock
    · subst hhold
      exact servesNext_finish [] (.ok .done)
        (hstep.trans (by simp only [Call.attemptLock, hk.txn, hatt])) (hev _ _) hkeep
    · have hgo : k.call.attemptLock P p m use = (P.withLocks L, k.call.goOn (.fetching p use)) := by
        simp only [Call.attemptLock, hk.txn, hatt]
      refine servesNext_goOn [] _ hk (by simp) (hstep.trans hgo) (hev _ _) hkeep
        ⟨huse, ?_, ?_⟩
      · show (L.modeOf p t).isSome = true
        rw [hgrant]
        rfl
      · intro hw
        show L.modeOf p t = some .exclusive
        rw [hgrant, hmode hw, Mode.raised_of_exclusive]
  | sleeps ticket =>
    exact servesNext_goOn [] (.sleeping ticket p m use) hk (by simp)
      (hstep.trans (by simp only [Call.attemptLock, hk.txn, hatt])) (hev _ _) hkeep ⟨huse, hmode⟩
  | deadlock =>
    exact servesNext_finish [] (.error (.aborted t))
      (hstep.trans (by simp only [Call.attemptLock, hk.txn, hatt]; rfl)) (hev _ _) hkeep

/-! ## Fetching -/

/-- What a transaction finds in the cache is what it should see. -/
theorem PoolInv.handed (hi : PoolInv origin others P h) (hfree : Unclaimed others P t)
    (hheld : (P.locks.modeOf p t).isSome) (hf : P.resident[p]? = some f) :
    Handed P h t p f ∧ (P.locks.modeOf p t = some .exclusive → Writable P t p f) := by
  have hc := hi.cached p f hf
  have hsettled := hfree.settled hc hheld
  cases hdirty : (P.page f).dirty with
  | none =>
    refine ⟨⟨hc.image, hheld, ?_⟩, fun hX => ⟨hX, .inr hf, .inl hdirty⟩⟩
    rw [hc.clean hdirty hsettled, shown, hi.own_of_clean hf hdirty]
    rfl
  | some s =>
    obtain rfl := hc.owner_eq hheld hdirty
    obtain ⟨hX, d, hd, hdata⟩ := hc.dirty s hdirty
    refine ⟨⟨hc.image, hheld, ?_⟩, fun hX => ⟨hX, .inr hf, .inr hdirty⟩⟩
    rw [hdata hsettled, shown, hd]
    rfl

/-- **A fetch for a transaction that holds the page fails, or gives the frame that is cached for the page
then, with what the transaction should see.** -/
theorem PoolInv.fetch_serves (hi : PoolInv origin others P h) (hfree : Unclaimed others P t)
    (hheld : (P.locks.modeOf p t).isSome) :
    ∃ P', Keeps origin t others P h P' h ∧ P'.storage = P.storage ∧ P'.locks = P.locks ∧
      ((∃ e, P.fetch p = (P', .error e)) ∨
        ∃ f, P.fetch p = (P', .ok f) ∧ P'.resident[p]? = some f ∧ Unclaimed others P' t) := by
  rcases P.fetch_cases p with ⟨R, f, hR, -, hRf, hfetch⟩ | ⟨R, e, hR, hfetch⟩ |
      ⟨R, hR, hnone, hpage, hfetch⟩
  · refine ⟨R, hi.keeps_shrunk hR, hR.storage, hR.locks, .inr ⟨f, hfetch, hRf, ?_⟩⟩
    intro g hg
    rw [hR.frames, hR.locks, Pool.page_congr hR.frames]
    exact hfree g hg
  · exact ⟨R, hi.keeps_shrunk hR, hR.storage, hR.locks, .inl ⟨e, hfetch⟩⟩
  · have hk := hi.keeps_shrunk (t := t) hR
    have hRnone : R.resident[p]? = none := by
      rcases hR.resident p with hkeep | ⟨hgone, -⟩
      · rw [hkeep, hnone]
      · exact hgone
    have hread := hk.pool.keeps_readIn (t := t) (p := p) (by rw [hR.locks]; exact hheld)
      (by rw [hR.storage]; exact hpage) hRnone
    rw [hR.storage] at hread
    refine ⟨_, hk.trans hread, hR.storage, hR.locks, .inr ⟨R.nextFrame, hfetch, ?_, ?_⟩⟩
    · rw [Pool.resident_cache, if_pos rfl]
    · intro g hg
      obtain ⟨hlt, hg'⟩ := hfree g hg
      rw [← hR.frames] at hlt
      refine ⟨?_, ?_⟩
      · simp only [Pool.cache, Pool.addFrame, Array.size_push]
        omega
      · show R.locks.modeOf ((R.addFrame _).page g).id t = none
        rw [Pool.page_addFrame_of_lt hlt, hR.locks, Pool.page_congr hR.frames]
        exact hg'

theorem UseInv.congr {use : Use} (hu : UseInv P h t p use) (hs : P'.storage = P.storage) :
    UseInv P' h t p use := by
  cases use with
  | place i =>
    obtain ⟨hp, hreg, hown⟩ := hu
    exact ⟨hp, by rw [Registered, hs]; exact hreg, hown⟩
  | holdLock => trivial
  | deliver => trivial
  | collect h pages next rows => trivial
  | remove h slot => trivial

theorem servesNext_fetching (hi : PoolInv origin others P h) (hk : TaskInv P h t k)
    (hfree : Unclaimed others P t) {use : Use} (ha : k.call.activity = .fetching p use)
    (hrule : k.rule = none) : ServesNext origin t others P h k := by
  have hinv := hk.activity
  rw [ha] at hinv
  obtain ⟨huse, hheld, hX⟩ := hinv
  obtain ⟨P', hkeep, hs, hl, hfetch⟩ := hi.fetch_serves hfree hheld
  rcases hfetch with ⟨e, hfetch⟩ | ⟨f, hfetch, hres, hfree'⟩
  · exact servesNext_finish [] (.error e) (by simp only [Call.step, ha, hfetch]; rfl)
      (by simp only [Task.events, ha]) hkeep
  · obtain ⟨hhanded, hwritable⟩ := hkeep.pool.handed hfree' (by rw [hl]; exact hheld) hres
    refine servesNext_goOn [] (.working p f use) hk (by simp) (by simp only [Call.step, ha, hfetch])
      (by simp only [Task.events, ha]) hkeep
      ⟨by rw [hrule]; rfl, huse.congr hs, hhanded, fun hw => hwritable ?_⟩
    rw [hl]
    exact hX (.inl hw)

/-! ## Working on a page -/

/-- A call that has written to its frame goes on to install it. -/
theorem servesNext_draft (hi : PoolInv origin others P h) (hk : TaskInv P h t k) {use : Use}
    (ha : k.call.activity = .working p f use) (hhanded : Handed P h t p f)
    (hw : Writable P t p f) {d : PageData} {c : Call}
    (hstep : k.call.step P = (P.setPage f ((P.page f).withData d), c.changed [f]))
    (htxn : c.txn = t) (hinst : c.installs = true) : ServesNext origin t others P h k := by
  have hself : (P.setPage f ((P.page f).withData d)).page f = (P.page f).withData d := by
    rw [Pool.page_setPage, if_pos ⟨rfl, hhanded.image.index_lt⟩]
  have hid : ((P.setPage f ((P.page f).withData d)).page f).id = p := by
    rw [hself]
    exact hhanded.image.id_eq
  have hc : c.changed [f] = c.goOn (.installing [f]) := by simp only [Call.changed, hinst, if_true]
  have hkeep : Keeps origin t (fun g => others g ∨ g = f) P h
      (P.setPage f ((P.page f).withData d)) h :=
    hi.keeps_draft hhanded.image hw d (fun _ => Or.inl) (.inr rfl)
  have hgot : Keeps origin t (fun g => others g ∨ g = f) P h (P.setPage f ((P.page f).withData d))
      (.got t p (P.page f).data :: h) :=
    hkeep.trans (hkeep.pool.keeps_of_history (fun _ _ => rfl) (fun _ => rfl) fun _ => id)
  refine servesNext_of [.got t p (P.page f).data] hstep
    (by simp only [Task.events, ha, hk.txn]) ⟨hgot.mono ?_, ?_⟩
  · intro g hg
    refine hg.imp_right fun hgf => ⟨_, by rw [hc]; rfl, [], ?_⟩
    rw [hgf]
    rfl
  · intro k' hk'
    rw [hc] at hk'
    obtain rfl := Option.some.inj hk'
    refine ⟨htxn, hinst, d, ?_, ?_, ?_, by rw [hself]; rfl⟩
    · simp only [Task.nextDraft, ha, hself]
      rfl
    · rw [hid]
      refine ⟨?_, hid, hhanded.image.hasPage, ?_⟩
      · rw [Pool.size_setPage]
        exact hhanded.image.index_lt
      · rw [hself]
        exact hhanded.image.before_eq
    · rw [hid]
      refine ⟨hw.exclusive, hw.resident, ?_⟩
      rw [hself]
      exact hw.dirty

theorem servesNext_working (hi : PoolInv origin others P h) (hk : TaskInv P h t k) {use : Use}
    (ha : k.call.activity = .working p f use) : ServesNext origin t others P h k := by
  have hinv := hk.activity
  rw [ha] at hinv
  obtain ⟨hplain, huse, hhanded, hwritable⟩ := hinv
  have hstep : k.call.step P = k.call.useFrame P p f use := by simp only [Call.step, ha]
  have hev : ∀ P' c, k.events P P' c = [.got t p (P.page f).data] := fun P' c => by
    simp only [Task.events, ha, hk.txn]
  -- Having read the page changes nothing.
  have hkeep : Keeps origin t others P h P (.got t p (P.page f).data :: h) :=
    hi.keeps_of_history (fun _ _ => rfl) (fun _ => rfl) fun _ => id
  have hends : ∀ r, k.call.useFrame P p f use = (P, k.call.finish r) →
      ServesNext origin t others P h k :=
    fun r hr => servesNext_finish _ r (hstep.trans hr) (hev _ _) hkeep
  cases use with
  | holdLock => exact hends (.ok .done) rfl
  | deliver => exact hends (.ok (.frame f)) rfl
  | collect x pages next rows =>
    rcases collectNext_cases k.call x pages (next + 1)
      (rows ++ x.layout.tuples p (P.page f).data) with hnext | hnext
    · refine servesNext_goOn _ (.locking ⟨x.table, next + 1⟩ .shared (.collect x pages (next + 1)
        (rows ++ x.layout.tuples p (P.page f).data))) hk (by simp)
        (hstep.trans (by simp only [Call.useFrame, hnext])) (hev _ _) hkeep ⟨trivial, ?_⟩
      rintro (hw | he)
      · exact hw.elim
      · rw [hplain] at he
        cases he
    · exact hends (.ok (.rows (rows ++ x.layout.tuples p (P.page f).data)))
        (by simp only [Call.useFrame, hnext])
  | place i =>
    obtain ⟨hpage, hreg, hown⟩ := huse
    cases hslot : i.heap.layout.freeSlot (P.page f).data with
    | some slot =>
      refine servesNext_draft (d := i.heap.layout.place (P.page f).data slot k.call.tuple.data)
        (c := { k.call with tuple := { k.call.tuple with recordId := some ⟨i.page, slot⟩ } })
        hi hk ha hhanded (hwritable trivial) ?_ hk.txn hk.installs
      simp only [hstep, Call.useFrame, Call.place, hslot]
    | none =>
      cases hheld : i.heldBefore with
      | true =>
        obtain ⟨a, htry, hne, hainv⟩ := activityInv_tryNext hkeep.pool hk.txn
          (i := { i with next := i.next + 1 }) hreg k.rule.isSome (k.nextDraft P)
        exact servesNext_goOn _ a hk hne (hstep.trans (by
          simp only [Call.useFrame, Call.place, hslot, ← htry, hheld, if_true])) (hev _ _) hkeep hainv
      | false =>
        refine servesNext_goOn _ (.dropping i) hk (by simp) (hstep.trans (by
          simp only [Call.useFrame, Call.place, hslot, hheld, Bool.false_eq_true, if_false]))
          (hev _ _) hkeep ⟨hreg, ?_⟩
        rw [hpage]
        exact hown hheld
  | remove x slot =>
    by_cases hused : SlotLayout.isUsed (P.page f).data slot = true
    · refine servesNext_draft (d := SlotLayout.setUsed (P.page f).data slot false) (c := k.call)
        hi hk ha hhanded (hwritable trivial) ?_ hk.txn hk.installs
      simp only [hstep, Call.useFrame, Call.remove, if_pos hused]
    · exact hends (.error .noTuple) (by simp only [Call.useFrame, Call.remove, if_neg hused]; rfl)

/-! ## Inserting -/

theorem servesNext_dropping (hi : PoolInv origin others P h) (hk : TaskInv P h t k) {i : Insertion}
    (ha : k.call.activity = .dropping i) : ServesNext origin t others P h k := by
  have hinv := hk.activity
  rw [ha] at hinv
  obtain ⟨hreg, hown⟩ := hinv
  have hkeep : Keeps origin t others P h (P.withLocks (P.locks.release i.page t).1) h := by
    refine hi.keeps_relock (hi.locks.release i.page t) ?_ ?_
    · intro q s hs
      rw [LockTable.modeOf_release hi.locks, if_neg fun hc => hs hc.2]
    · intro q d hd
      have hne : q ≠ i.page := by
        intro hq
        rw [hq, hown] at hd
        cases hd
      rw [LockTable.modeOf_release hi.locks, if_neg fun hc => hne hc.1]
      exact hi.exclusive_of_own hd
  have hrel : P.releasePage i.page k.call.txn =
      (P.withLocks (P.locks.release i.page t).1, (P.locks.release i.page t).2) := by
    rw [hk.txn]
    rfl
  cases hr : (P.locks.release i.page t).2 with
  | error e =>
    rw [hr] at hrel
    exact servesNext_finish [] (.error e) (by simp only [Call.step, ha, hrel]; rfl)
      (by simp only [Task.events, ha]) hkeep
  | ok u =>
    rw [hr] at hrel
    obtain ⟨a, htry, hne, hainv⟩ := activityInv_tryNext hkeep.pool hk.txn
      (i := { i with next := i.next + 1 }) hreg k.rule.isSome
      (k.nextDraft (P.withLocks (P.locks.release i.page t).1))
    exact servesNext_goOn [] a hk hne (by simp only [Call.step, ha, hrel, htry])
      (by simp only [Task.events, ha]) hkeep hainv

theorem servesNext_counting (hi : PoolInv origin others P h) (hk : TaskInv P h t k) {i : Insertion}
    (ha : k.call.activity = .counting i) : ServesNext origin t others P h k := by
  have hreg := hk.activity
  rw [ha] at hreg
  cases hn : i.heap.numPages P.storage.disk with
  | error e =>
    exact servesNext_finish [] (.error e) (by simp only [Call.step, ha, hn]; rfl)
      (by simp only [Task.events, ha]) hi.keeps_same
  | ok pages =>
    obtain ⟨a, htry, hne, hainv⟩ := activityInv_tryNext hi hk.txn (i := { i with pages }) hreg
      k.rule.isSome (k.nextDraft P)
    exact servesNext_goOn [] a hk hne (by simp only [Call.step, ha, hn, htry])
      (by simp only [Task.events, ha]) hi.keeps_same hainv

theorem servesNext_growing (hi : PoolInv origin others P h) (hk : TaskInv P h t k) {i : Insertion}
    (ha : k.call.activity = .growing i) : ServesNext origin t others P h k := by
  have hreg := hk.activity
  rw [ha] at hreg
  rcases Tables.append_cases hi.sound hreg rfl i.pages with
    ⟨e, happ⟩ | ⟨-, happ⟩ | ⟨-, -, disk, happ, hrw⟩
  · exact servesNext_finish [] (.error e) (by simp only [Call.step, ha, happ]; rfl)
      (by simp only [Task.events, ha, if_true]) hi.keeps_same
  · exact servesNext_goOn [] (.counting i) hk (by simp) (by simp only [Call.step, ha, happ])
      (by simp only [Task.events, ha, if_true]) hi.keeps_same hreg
  · have hgrown : Tables.pages { P.storage with disk } i.heap.table ≠
        P.storage.pages i.heap.table := by
      rw [hrw.pages, if_pos rfl]
      show max _ (P.storage.pages i.heap.table + 1) ≠ _
      omega
    refine servesNext_goOn [.appended ⟨i.heap.table, P.storage.pages i.heap.table⟩] (.counting i) hk
      (by simp) (by simp only [Call.step, ha, happ])
      (by simp only [Task.events, ha, if_neg hgrown]) (hi.keeps_append hrw) ?_
    exact hreg

/-! ## Installing -/

/-- **An install makes the draft of its call what the transaction sees, or fails and changes nothing.** -/
theorem servesNext_installing (hi : PoolInv origin (fun g => others g ∨ g = f) P h)
    (hk : TaskInv P h t k) (ha : k.call.activity = .installing [f]) :
    ServesNext origin t others P h k := by
  have hinv := hk.activity
  rw [ha] at hinv
  obtain ⟨d, hdraft, himage, hw, hdata⟩ := hinv
  have hself : (P.setPage f ((P.page f).markDirty t)).page f = (P.page f).markDirty t := by
    rw [Pool.page_setPage, if_pos ⟨rfl, himage.index_lt⟩]
  have hother : ∀ g, g ≠ f → (P.setPage f ((P.page f).markDirty t)).page g = P.page g :=
    fun g hg => Pool.page_setPage_of_ne _ _ hg
  have hch : ∀ g, g ≠ f → others g ∨ g = f → others g := fun g hg hc => hc.resolve_right hg
  have hstored : ∀ P', k.events P P' (k.call.goOn (.installing [])) =
      [.stored t (P.page f).id d] := fun P' => by
    simp only [Task.events, ha, hdraft, hk.txn]
    rfl
  rcases Pool.install_cases P t f with ⟨hres, hinst⟩ | ⟨g, hres, hgf, -⟩ | ⟨hres, R, hR, hinst⟩
  · have hstep : k.call.step P =
        (P.setPage f ((P.page f).markDirty t), k.call.goOn (.installing [])) := by
      simp only [Call.step, ha, hk.txn, hinst]
    refine servesNext_goOn _ (.installing []) hk (by simp) hstep (hstored _) ?_ trivial
    refine hi.keeps_change himage hw.exclusive rfl rfl (Pool.size_setPage P f _) ?_
      ⟨by rw [hself]; rfl, by rw [hself]; rfl, by rw [hself]; rfl⟩ hother ?_
      (fun _ => rfl) hch
    · intro q
      show P.resident[q]? = _
      split
      · rename_i hq
        rw [hq, hres]
      · rfl
    · intro s q
      rw [hself, Page.markDirty_data, hdata]
      rfl
  · rcases hw.resident with hnone | hf
    · rw [hnone] at hres
      cases hres
    · rw [hf, Option.some.injEq] at hres
      exact absurd hres.symm hgf
  · have hmark := hi.keeps_mark himage hw.exclusive hres hch
    have hroom := hmark.trans (hmark.pool.keeps_shrunk hR)
    rcases hinst with ⟨e, hinst⟩ | hinst
    · exact servesNext_finish [] (.error e) (by simp only [Call.step, ha, hk.txn, hinst]; rfl)
        (by simp only [Task.events, ha, hdraft]; rfl) hroom
    · have hRself : R.page f = (P.page f).markDirty t := by
        rw [Pool.page_congr hR.frames, hself]
      have hstep : k.call.step P =
          (R.cache (P.page f).id f, k.call.goOn (.installing [])) := by
        simp only [Call.step, ha, hk.txn, hinst]
      refine servesNext_goOn _ (.installing []) hk (by simp) hstep (hstored _) (hroom.trans ?_)
        trivial
      have hRimage : Image R (P.page f).id f :=
        ⟨by rw [hR.frames, Pool.size_setPage]; exact himage.index_lt, by rw [hRself]; rfl,
          by rw [hR.storage]; exact himage.hasPage,
          by rw [hRself, hR.storage]; exact himage.before_eq⟩
      refine hroom.pool.keeps_change hRimage (by rw [hR.locks]; exact hw.exclusive) rfl rfl rfl
        (Pool.resident_cache R _ f) ⟨hRimage.id_eq, rfl, by show (R.page f).dirty = _; rw [hRself]; rfl⟩
        (fun _ _ => rfl) ?_ (fun _ => rfl) (fun _ _ => id)
      intro s q
      show _ = if t = s ∧ (P.page f).id = q then some (R.page f).data else _
      rw [hRself, Page.markDirty_data, hdata]
      rfl

/-! ## Ending a transaction -/

theorem servesNext_releasing (hi : PoolInv origin others P h) (hk : TaskInv P h t k) {commit : Bool}
    {r : Except Error Unit} (ha : k.call.activity = .releasing commit r) :
    ServesNext origin t others P h k := by
  have hown := hk.activity
  rw [ha] at hown
  have hkeep : Keeps origin t others P h (P.withLocks (P.locks.releaseAll t).1) h := by
    refine hi.keeps_relock (hi.locks.releaseAll t) ?_ ?_
    · intro q s hs
      rw [(LockTable.releaseAll_spec hi.locks t).2, if_neg hs]
    · intro q d hd
      rw [hown q] at hd
      cases hd
  exact servesNext_goOn [] (.ending commit (Pool.bothOk r (P.releaseAll t).2)) hk (by simp)
    (by simp only [Call.step, ha, hk.txn]; rfl) (by simp only [Task.events, ha]) hkeep hown

theorem servesNext_ending (hi : PoolInv origin others P h) {commit : Bool}
    {r : Except Error Unit} (ha : k.call.activity = .ending commit r) :
    ServesNext origin t others P h k := by
  have hstep : k.call.step P = (P.countEnd commit, k.call.finish (r.map fun _ => .done)) := by
    simp only [Call.step, ha]
  exact servesNext_finish [] _ hstep (by simp only [Task.events, ha])
    (hi.keeps_shrunk (Pool.shrunk_of_eq rfl rfl rfl rfl))

/-! ## Every section -/

/-- **The next section of a call serves it**, whatever the call is doing. -/
theorem servesNext (hi : PoolInv origin (fun g => others g ∨ k.call.activity.Changes g) P h)
    (hk : TaskInv P h t k) (hfree : Unclaimed others P t)
    (hrule : ∀ p use, k.call.activity = .fetching p use → k.rule = none) :
    ServesNext origin t others P h k := by
  -- Only an install has a frame of its own that is about to be installed.
  have hquiet : (∀ g, ¬k.call.activity.Changes g) → PoolInv origin others P h := fun hno =>
    (hi.keeps_refl (t := t) fun g hg => hg.resolve_right (hno g)).pool
  cases ha : k.call.activity with
  | start r =>
    exact servesNext_start (hquiet fun g hg => by simp [Activity.Changes, ha] at hg) hk hfree ha
  | locking p m use =>
    have hinv := hk.activity
    rw [ha] at hinv
    exact servesNext_attempt (hquiet fun g hg => by simp [Activity.Changes, ha] at hg) hk
      (by simp only [Call.step, ha]) (fun P' c => by simp only [Task.events, ha]) hinv.1 hinv.2
  | sleeping ticket p m use =>
    have hinv := hk.activity
    rw [ha] at hinv
    have hi' := hquiet fun g hg => by simp [Activity.Changes, ha] at hg
    by_cases hs : P.locks.sleeps ticket = true
    · exact servesNext_goOn [] (.sleeping ticket p m use) hk (by simp)
        (by simp only [Call.step, ha, if_pos hs, Call.goOn]; rw [← ha])
        (by simp only [Task.events, ha]) hi'.keeps_same hinv
    · exact servesNext_attempt hi' hk (by simp only [Call.step, ha, if_neg hs])
        (fun P' c => by simp only [Task.events, ha]) hinv.1 hinv.2
  | fetching p use =>
    exact servesNext_fetching (hquiet fun g hg => by simp [Activity.Changes, ha] at hg) hk hfree ha
      (hrule p use ha)
  | working p f use =>
    exact servesNext_working (hquiet fun g hg => by simp [Activity.Changes, ha] at hg) hk ha
  | dropping i =>
    exact servesNext_dropping (hquiet fun g hg => by simp [Activity.Changes, ha] at hg) hk ha
  | counting i =>
    exact servesNext_counting (hquiet fun g hg => by simp [Activity.Changes, ha] at hg) hk ha
  | growing i =>
    exact servesNext_growing (hquiet fun g hg => by simp [Activity.Changes, ha] at hg) hk ha
  | installing fs =>
    have hinv := hk.activity
    rw [ha] at hinv
    rcases hinv.installing_cases with rfl | ⟨f, -, rfl, -, -⟩
    · exact servesNext_finish [] (.ok .done) (by simp only [Call.step, ha])
        (by simp only [Task.events, ha])
        (hquiet fun g hg => by simp [Activity.Changes, ha] at hg).keeps_same
    · refine servesNext_installing (f := f) ?_ hk ha
      refine (hi.keeps_refl (t := t) fun g hg => hg.imp_right ?_).pool
      rintro ⟨fs, hfs⟩
      rw [ha] at hfs
      cases hfs
      rfl
  | releasing commit r =>
    exact servesNext_releasing (hquiet fun g hg => by simp [Activity.Changes, ha] at hg) hk ha
  | ending commit r =>
    exact servesNext_ending (hquiet fun g hg => by simp [Activity.Changes, ha] at hg) ha
  | finished r =>
    exact servesNext_finish [] r (by simp only [Call.step, ha, Call.finish, Call.goOn]; rw [← ha])
      (by simp only [Task.events, ha])
      (hquiet fun g hg => by simp [Activity.Changes, ha] at hg).keeps_same

/-! ## Overwriting a page -/

/-- **A client that fetches a page which its transaction holds exclusively, overwrites it and marks it
has changed the page**, or the fetch fails and nothing is changed. -/
theorem PoolInv.serves_edit (hi : PoolInv origin others P h) (hfree : Unclaimed others P t)
    (hX : P.locks.modeOf p t = some .exclusive) :
    (∃ P' e, P.fetch p = (P', .error e) ∧ Serves origin t others P h P' h none) ∨
    ∃ P' f, P.fetch p = (P', .ok f) ∧ (P'.page f).data = shown P h t p ∧ ∀ rule d,
      Serves origin t others P h (P'.setPage f (((P'.page f).withData d).markDirty t))
        (.edited t p rule d :: .got t p (P'.page f).data :: h) none := by
  obtain ⟨P', hkeep, hs, hl, hfetch⟩ := hi.fetch_serves hfree (by rw [hX]; rfl)
  rcases hfetch with ⟨e, hfetch⟩ | ⟨f, hfetch, hres, hfree'⟩
  · exact .inl ⟨P', e, hfetch, hkeep.ends⟩
  · have hX' : P'.locks.modeOf p t = some .exclusive := by rw [hl, hX]
    obtain ⟨hhanded, -⟩ := hkeep.pool.handed hfree' (by rw [hX']; rfl) hres
    refine .inr ⟨P', f, hfetch, ?_, fun rule d => ?_⟩
    · rw [hhanded.data_eq, shown, shown, hs]
    · have hgot : Keeps origin t others P h P' (.got t p (P'.page f).data :: h) :=
        hkeep.trans (hkeep.pool.keeps_of_history (fun _ _ => rfl) (fun _ => rfl) fun _ => id)
      exact (hgot.trans (hgot.pool.keeps_overwrite hX' hres rule d)).ends

end Sections

end PageEngine
