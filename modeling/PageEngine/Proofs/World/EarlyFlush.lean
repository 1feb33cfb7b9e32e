import PageEngine.Proofs.Pool.Browsing
import PageEngine.Proofs.World.Alone
import PageEngine.Proofs.World.PageSteps

/-!
# `Proofs/World/EarlyFlush.lean` — pages that are written out before a commit

A page that a transaction has changed may be written out before the transaction ends, by anybody and as often
as they like. It is clean then and may be evicted and read again, with the uncommitted bytes, and its
before-image may be older than these. The commit makes up for all of it:

> **a commit leaves a page at the bytes that it has then** (`World.StandsAt`): the store holds them, an abort brings
> them back, and who is handed the page gets them, until somebody changes the page and has it written out, or
> commits.

What is asked of the run after the commit is said of one page (`Deed.Spares`), so it may do to other pages what it
likes.
-/

set_option autoImplicit false

namespace PageEngine

open Std

/-- The page is not written out while it is changed, and nobody who has changed it commits. -/
structure Deed.Spares (p : PageId) (w : World) (d : Deed) : Prop where
  harmless : d.Harmless w
  clean : d.WritesOut p → w.pool.dirtyImage p = none
  unchanged : ∀ s, d = .flushHeld s → (w.pool.locks.modeOf p s).isSome → ¬w.Changing p
  undone : ∀ u, w.settles d = some (u, true) → History.own u p w.history = none

namespace World

/-- The deed hands the page to `u` with these contents. -/
def Hands (w : World) (d : Deed) (u : TxnId) (p : PageId) (x : PageData) : Prop :=
  ∃ new, (w.perform d).history = new ++ w.history ∧ Event.got u p x ∈ new

/-- The page is at the bytes `x`, whatever others are doing to it. -/
structure StandsAt (w : World) (p : PageId) (x : PageData) : Prop where
  /-- The store holds them, -/
  stored : w.pool.storage.contents p = x
  /-- an abort brings them back, -/
  before : ∀ f, w.pool.resident[p]? = some f → (w.pool.page f).beforeImage = x
  /-- and whoever is handed the page without having changed it gets them. -/
  seen : ∀ d u y, d.Harmless w → w.Hands d u p y → History.own u p w.history = none → y = x

/-! ## What holds of a page while its changer runs -/

/-- A dirty frame has a transaction that has changed the page, and while there is one a clean frame was written. -/
structure Coherent (w : World) (p : PageId) : Prop where
  owned : ∀ f u, w.Uses p f → (w.pool.page f).dirty = some u → History.own u p w.history ≠ none
  written : ∀ u f, History.own u p w.history ≠ none → w.pool.resident[p]? = some f → (w.pool.page f).dirty = none →
    ¬w.Pending f → (w.pool.page f).data = w.pool.storage.contents p

/-- The latest change of `t` is in the cache, or in the store if the page is not cached. -/
structure Retains (w : World) (t : TxnId) (p : PageId) : Prop where
  cached : ∀ x f, History.own t p w.history = some x → w.pool.resident[p]? = some f → ¬w.Pending f →
    (w.pool.page f).data = x
  stored : ∀ x, History.own t p w.history = some x → w.pool.resident[p]? = none → ¬w.PendingAt p →
    w.pool.storage.contents p = x

/-- The store and every before-image hold `x`, and so does whatever is neither dirty nor about to be installed. -/
structure Pinned (w : World) (p : PageId) (x : PageData) : Prop where
  hasPage : w.pool.storage.HasPage p
  stored : w.pool.storage.contents p = x
  before : ∀ f, w.Uses p f → (w.pool.page f).beforeImage = x
  clean : ∀ f, w.Uses p f → (w.pool.page f).dirty = none → ¬w.Pending f → (w.pool.page f).data = x

section Steps

variable {w w' : World} {d : Deed} {t u : TxnId} {k : Task} {p : PageId} {f : FrameId} {x : PageData}

/-- A cached frame of a page that rests was cached before, or has been read in. -/
theorem Rests.cached (hw' : w'.Steady) (h : Rests w d p w') (hf : w'.pool.resident[p]? = some f) :
    (w.pool.resident[p]? = some f ∧ Unmoved w w' p f) ∨ ReadIn w w' p f := by
  rcases h.frames f (hw'.uses_of_resident hf) with hold | hnew
  · rcases h.cache with hsame | ⟨hnone, -⟩ | ⟨g, hg⟩
    · exact .inl ⟨hsame ▸ hf, hold⟩
    · rw [hnone] at hf
      cases hf
    · exact .inr (Option.some.inj (hg.resident.symm.trans hf) ▸ hg)
  · exact .inr hnew

/-- **Dirty frames go on to have owners, and clean ones of changed pages to be written.** -/
theorem Coherent.step (hc : w.Coherent p) (hw : w.Steady) (hw' : w'.Steady) (h : PageStep w d p w') :
    w'.Coherent p := by
  cases h with
  | rests h =>
    refine ⟨fun f u hf hdirty => ?_, fun u f hown hf hclean hidle => ?_⟩
    · rw [h.own]
      rcases h.frames f hf with hold | hnew
      · exact hc.owned f u hold.uses (hold.page ▸ hdirty)
      · rw [hnew.page] at hdirty
        cases hdirty
    · rw [h.own] at hown
      rw [h.stored (hw.owned u p hown).2]
      rcases h.cached hw' hf with ⟨hres, hold⟩ | hnew
      · rw [hold.page] at hclean ⊢
        exact hc.written u f hown hres hclean fun hp => hidle (hold.pending hp)
      · rw [hnew.page]
        rfl
  | wroteOut g h =>
    refine ⟨fun f u hf hdirty => ?_, fun u f hown hf _ _ => ?_⟩
    · rw [h.own]
      rcases h.frames f hf with rfl | hold
      · rw [h.page] at hdirty
        cases hdirty
      · exact hc.owned f u hold.uses (hold.page ▸ hdirty)
    · obtain rfl := Option.some.inj (h.resident.symm.trans hf)
      rw [h.page, h.stored]
      rfl
  | drafts g h =>
    obtain ⟨x, hx⟩ := h.page
    refine ⟨fun f u hf hdirty => ?_, fun u f hown hf _ hidle => ?_⟩
    · rw [h.own]
      rcases h.frames f hf with rfl | hold
      · rw [hx] at hdirty
        exact hc.owned f u h.uses hdirty
      · exact hc.owned f u hold.uses (hold.page ▸ hdirty)
    · rw [h.resident] at hf
      rcases h.sole with hnone | hg
      · rw [hnone] at hf
        cases hf
      · obtain rfl := Option.some.inj (hg.symm.trans hf)
        exact absurd h.pending hidle
  | changed t g h =>
    refine ⟨fun f u hf hdirty => ?_, fun u f _ hf hclean _ => ?_⟩
    · obtain rfl := h.frames f hf
      obtain rfl := Option.some.inj (h.dirty.symm.trans hdirty)
      rw [h.own]
      exact Option.some_ne_none _
    · obtain rfl := Option.some.inj (h.resident.symm.trans hf)
      rw [h.dirty] at hclean
      cases hclean
  | settled t h =>
    refine ⟨fun f u hf hdirty => ?_, fun u f hown hf _ hidle => ?_⟩
    · rcases h.frames f hf with hres | ⟨hold, hown⟩
      · rw [h.page f hres] at hdirty
        cases hdirty
      · rw [hown]
        exact hc.owned f u hold.uses (hold.page ▸ hdirty)
    · rw [h.resident] at hf
      rw [h.page f hf]
      show (w.pool.page f).data = _
      by_cases hdirty : (w.pool.page f).dirty = none
      · rw [h.kept fun g hg => Option.some.inj (hf.symm.trans hg) ▸ hdirty]
        exact hc.written u f (h.own u hown ▸ hown) hf hdirty fun hp => hidle (h.pending f hp)
      · exact (h.stored f hf hdirty).symm
  | undone h =>
    refine ⟨fun f u hf hdirty => ?_, fun u f hown => absurd (h.own u) hown⟩
    rw [h.page f (h.frames f hf)] at hdirty
    cases hdirty

theorem Retains.rests (hr : w.Retains t p) (hc : w.Coherent p) (hw : w.Steady) (hw' : w'.Steady)
    (hno : ¬w.Loses t p d) (h : Rests w d p w') : w'.Retains t p := by
  refine ⟨fun x f hown hf hidle => ?_, fun x hown hnone hidle => ?_⟩
  · rw [h.own] at hown
    rcases h.cached hw' hf with ⟨hres, hold⟩ | hnew
    · rw [hold.page]
      exact hr.cached x f hown hres fun hp => hidle (hold.pending hp)
    · rw [hnew.page]
      exact hr.stored x hown hnew.uncached hnew.alone
  · rw [h.own] at hown
    obtain ⟨hX, hp⟩ := hw.owned t p (by rw [hown]; exact Option.some_ne_none x)
    rw [h.stored hp]
    -- Only `t` could have lost a change.
    have halone : ¬w.PendingAt p := by
      intro hpending
      rcases h.pending hpending with hstays | ⟨s, hs⟩
      · exact hidle hstays
      · obtain ⟨-, k, f, hk, hf, hid, -⟩ := id hs
        obtain ⟨-, hXs⟩ := hw.changedBy ⟨k, hk, hf⟩
        rw [hid] at hXs
        exact hno (LockTable.eq_of_modeOf_exclusive hX (by rw [hXs]; rfl) ▸ hs)
    rcases h.cache with hsame | ⟨-, f, hf, hclean⟩ | ⟨f, hf⟩
    · exact hr.stored x hown (hsame ▸ hnone) halone
    · have hfree : ¬w.Pending f := fun hp => halone ⟨f, (hw.filed p f hf).2, hp⟩
      rw [← hc.written t f (by rw [hown]; exact Option.some_ne_none x) hf hclean hfree]
      exact hr.cached x f hown hf hfree
    · rw [hf.resident] at hnone
      cases hnone

/-- **The latest change stays**, unless an install of a later one finds no room. -/
theorem Retains.step (hr : w.Retains t p) (hc : w.Coherent p) (hw : w.Steady) (hw' : w'.Steady)
    (hno : ¬w.Loses t p d) (h : PageStep w d p w') : w'.Retains t p := by
  cases h with
  | rests h => exact hr.rests hc hw hw' hno h
  | wroteOut g h =>
    refine ⟨fun x f hown hf hidle => ?_, fun x _ hnone _ => ?_⟩
    · rw [h.own] at hown
      obtain rfl := Option.some.inj (h.resident.symm.trans hf)
      rw [h.page]
      exact hr.cached x g hown h.cached fun hp => hidle (h.pending g hp)
    · rw [h.resident] at hnone
      cases hnone
  | drafts g h =>
    obtain ⟨y, hy⟩ := h.page
    have hid : (w'.pool.page g).id = p := by
      rw [hy]
      exact h.uses.id_eq
    refine ⟨fun x f _ hf hidle => ?_, fun x _ _ hidle => absurd ⟨g, hid, h.pending⟩ hidle⟩
    rw [h.resident] at hf
    rcases h.sole with hnone | hg
    · rw [hnone] at hf
      cases hf
    · obtain rfl := Option.some.inj (hg.symm.trans hf)
      exact absurd h.pending hidle
  | changed s g h =>
    refine ⟨fun x f hown hf _ => ?_, fun x _ hnone _ => ?_⟩
    · obtain rfl := Option.some.inj (h.resident.symm.trans hf)
      by_cases hs : t = s
      · rw [hs, h.own] at hown
        exact Option.some.inj hown
      · rw [(h.others t hs).2] at hown
        cases hown
    · rw [h.resident] at hnone
      cases hnone
  | settled s h =>
    have hown : ∀ {x}, History.own t p w'.history = some x → History.own t p w.history = some x := fun hx =>
      (h.own t (by rw [hx]; exact Option.some_ne_none _)).symm.trans hx
    refine ⟨fun x f hx hf hidle => ?_, fun x hx hnone hidle => ?_⟩
    · rw [h.resident] at hf
      rw [h.page f hf]
      exact hr.cached x f (hown hx) hf fun hp => hidle (h.pending f hp)
    · rw [h.resident] at hnone
      rw [h.kept fun f hf => by rw [hnone] at hf; cases hf]
      exact hr.stored x (hown hx) hnone fun hp => hidle (h.pendingAt hp)
  | undone h =>
    refine ⟨fun x f hx => ?_, fun x hx => ?_⟩
    · rw [h.own] at hx
      cases hx
    · rw [h.own] at hx
      cases hx

theorem Pinned.unmoved (hp : w.Pinned p x) (h : Unmoved w w' p f) : (w'.pool.page f).beforeImage = x ∧
    ((w'.pool.page f).dirty = none → ¬w'.Pending f → (w'.pool.page f).data = x) := by
  rw [h.page]
  exact ⟨hp.before f h.uses, fun hclean hidle => hp.clean f h.uses hclean fun hpending =>
    hidle (h.pending hpending)⟩

theorem Pinned.settled (hp : w.Pinned p x) (hc : w.Coherent p) (hw : w.Steady) (hd : d.Spares p w)
    (hpage : w'.pool.storage.HasPage p) (h : Settled w d p t w') : w'.Pinned p x := by
  -- Nobody is changing the page, so its frames are clean and hold `x`.
  have hquiet : ¬w.Changing p := by
    rcases h.called with ⟨hd', hheld⟩ | ⟨hsettles, hown⟩
    · exact hd.unchanged t hd' hheld
    · exact fun hchanging => hown hchanging (hd.undone t hsettles)
  have hclean : ∀ f, w.pool.resident[p]? = some f →
      (w.pool.page f).dirty = none ∧ (w.pool.page f).data = x := by
    intro f hf
    have huses := hw.uses_of_resident hf
    have hnone : (w.pool.page f).dirty = none := by
      by_contra hdirty
      obtain ⟨u, hu⟩ := Option.ne_none_iff_exists'.1 hdirty
      exact hquiet (.inl ⟨u, hc.owned f u huses hu⟩)
    exact ⟨hnone, hp.clean f huses hnone fun hpending => hquiet (.inr ⟨f, huses.id_eq, hpending⟩)⟩
  refine ⟨hpage, (h.kept fun f hf => (hclean f hf).1).trans hp.stored, fun f hf => ?_, fun f hf hnone hidle => ?_⟩
  · rcases h.frames f hf with hres | ⟨hkeep, -⟩
    · rw [h.page f hres]
      exact (hclean f hres).2
    · exact (hp.unmoved hkeep).1
  · rcases h.frames f hf with hres | ⟨hkeep, -⟩
    · rw [h.page f hres]
      exact (hclean f hres).2
    · exact (hp.unmoved hkeep).2 hnone hidle

/-- **A page goes on to be pinned while it is spared.** -/
theorem Pinned.step (hp : w.Pinned p x) (hc : w.Coherent p) (hw : w.Steady) (hd : d.Spares p w)
    (hpage : w'.pool.storage.HasPage p) (h : PageStep w d p w') : w'.Pinned p x := by
  cases h with
  | rests h =>
    have hboth : ∀ f, w'.Uses p f → (w'.pool.page f).beforeImage = x ∧
        ((w'.pool.page f).dirty = none → ¬w'.Pending f → (w'.pool.page f).data = x) := by
      intro f hf
      rcases h.frames f hf with hkeep | hnew
      · exact hp.unmoved hkeep
      · rw [hnew.page]
        exact ⟨hp.stored, fun _ _ => hp.stored⟩
    exact ⟨hpage, (h.stored hp.hasPage).trans hp.stored, fun f hf => (hboth f hf).1, fun f hf => (hboth f hf).2⟩
  | wroteOut g h =>
    have hnone := hd.clean h.called
    rw [h.dirty] at hnone
    cases hnone
  | drafts g h =>
    obtain ⟨y, hy⟩ := h.page
    refine ⟨hpage, h.stored.trans hp.stored, fun f hf => ?_, fun f hf hclean hidle => ?_⟩
    · rcases h.frames f hf with rfl | hkeep
      · rw [hy]
        exact hp.before f h.uses
      · exact (hp.unmoved hkeep).1
    · rcases h.frames f hf with rfl | hkeep
      · exact absurd h.pending hidle
      · exact (hp.unmoved hkeep).2 hclean hidle
  | changed t g h =>
    refine ⟨hpage, h.stored.trans hp.stored, fun f hf => ?_, fun f hf hclean _ => ?_⟩
    · obtain rfl := h.frames f hf
      rcases h.before with ⟨huses, hbefore⟩ | hbefore
      · exact hbefore.trans (hp.before f huses)
      · exact hbefore.trans hp.stored
    · obtain rfl := h.frames f hf
      rw [h.dirty] at hclean
      cases hclean
  | settled t h => exact hp.settled hc hw hd hpage h
  | undone h =>
    have hrestored : ∀ f, w'.Uses p f → (w'.pool.page f).beforeImage = x ∧ (w'.pool.page f).data = x := by
      intro f hf
      have hres := h.frames f hf
      rw [h.page f hres]
      exact ⟨hp.before f (hw.uses_of_resident hres), hp.before f (hw.uses_of_resident hres)⟩
    exact ⟨hpage, h.stored.trans hp.stored, fun f hf => (hrestored f hf).1, fun f hf _ _ => (hrestored f hf).2⟩

/-! ## The commit -/

/-- **A commit pins a page that it saves to what the pool has of it.** -/
theorem pinned_of_commit (hw : w.Steady) (hc : w.Coherent p) (hchanged : History.own t p w.history ≠ none)
    (hidle : ¬w.PendingAt p) (hcommit : ∀ s, w.settles d ≠ some (s, false))
    (hgone : History.own t p w'.history = none) (hpage : w'.pool.storage.HasPage p) (h : PageStep w d p w') :
    w'.Pinned p (w.pool.look p) := by
  have hlost : (∀ u, History.own u p w'.history = History.own u p w.history) → False := fun hown =>
    hchanged ((hown t).symm.trans hgone)
  cases h with
  | rests h => exact (hlost h.own).elim
  | wroteOut g h => exact (hlost h.own).elim
  | drafts g h => exact (hlost h.own).elim
  | changed s g h =>
    by_cases hs : t = s
    · rw [hs, h.own] at hgone
      cases hgone
    · exact absurd (h.others t hs).1 hchanged
  | undone h =>
    obtain ⟨s, hs⟩ := h.called
    exact absurd hs (hcommit s)
  | settled s h =>
    have hsaved : ∀ f, w'.Uses p f → w.pool.resident[p]? = some f ∧
        w'.pool.page f = (w.pool.page f).markClean.capture := fun f hf => by
      have hres := (h.frames f hf).resolve_right fun hc => hlost hc.2
      exact ⟨hres, h.page f hres⟩
    have hdata : ∀ f, w'.Uses p f → (w.pool.page f).data = w.pool.look p := fun f hf =>
      (Pool.look_of_resident (hsaved f hf).1).symm
    refine ⟨hpage, ?_, fun f hf => ?_, fun f hf _ _ => ?_⟩
    · cases hres : w.pool.resident[p]? with
      | none =>
        rw [h.kept fun f hf => (by rw [hres] at hf; cases hf), Pool.look_of_none hres]
      | some f =>
        rw [Pool.look_of_resident hres]
        by_cases hdirty : (w.pool.page f).dirty = none
        · rw [h.kept fun g hg => Option.some.inj (hres.symm.trans hg) ▸ hdirty]
          exact (hc.written t f hchanged hres hdirty fun hpending =>
            hidle ⟨f, (hw.filed p f hres).2, hpending⟩).symm
        · exact h.stored f hres hdirty
    · rw [(hsaved f hf).2]
      exact hdata f hf
    · rw [(hsaved f hf).2]
      exact hdata f hf

/-- What is retained of the latest change is what the pool has of the page. -/
theorem Retains.look (hr : w.Retains t p) (hchanged : History.own t p w.history ≠ none) (hidle : ¬w.PendingAt p)
    (hw : w.Steady) : History.own t p w.history = some (w.pool.look p) := by
  obtain ⟨x, hx⟩ := Option.ne_none_iff_exists'.1 hchanged
  rw [hx]
  cases hres : w.pool.resident[p]? with
  | none => rw [Pool.look_of_none hres, hr.stored x hx hres hidle]
  | some f =>
    rw [Pool.look_of_resident hres, hr.cached x f hx hres fun hpending =>
      hidle ⟨f, (hw.filed p f hres).2, hpending⟩]

/-! ## Who is handed the page -/

/-- What may be handed out of a page to somebody who holds it: the data of a frame in use, or the bytes in the
store. -/
def OnOffer (w : World) (u : TxnId) (p : PageId) (x : PageData) : Prop :=
  (w.pool.locks.modeOf p u).isSome ∧ ¬w.PendingAt p ∧
    ((∃ f, w.Uses p f ∧ (w.pool.page f).data = x) ∨ x = w.pool.storage.contents p)

theorem Steady.onOffer_section (hw : w.Steady) (hk : w.tasks t = some k) {P : Pool Tables} {c : Call}
    (h : Event.got u p x ∈ k.events w.pool P c) : w.OnOffer u p x := by
  unfold Task.events at h
  split at h
  · cases List.mem_singleton.1 h
  · rename_i q f use ha
    cases List.mem_singleton.1 h
    have hheeds := hw.heeds t k hk
    rw [ha] at hheeds
    obtain ⟨-, hlt, hid, hheld⟩ := hheeds
    rw [hw.txn hk]
    have hstill : k.call.activity.Still := by rw [ha]; trivial
    refine ⟨hheld, not_pendingAt hw hk hheld hstill.not_changes, .inl ⟨f, ⟨hlt, hid, .inr ⟨t, k, hk, ?_⟩⟩, rfl⟩⟩
    rw [ha]
    exact List.mem_singleton.2 rfl
  · split at h
    · exact absurd h List.not_mem_nil
    · cases List.mem_singleton.1 h
  · split at h
    · cases List.mem_singleton.1 h
    · exact absurd h List.not_mem_nil
  · exact absurd h List.not_mem_nil

/-- A client that overwrites a page gets what it holds first. -/
theorem Steady.onOffer_edit (hw : w.Steady) (hk : w.tasks t = some k) {rule : Rule} {use : Use} {q : PageId}
    (hrule : k.rule = some rule) (ha : k.call.activity = .fetching q use) :
    ∃ new, (w.editPage t q rule).history = new ++ w.history ∧ (Event.got u p x ∈ new → w.OnOffer u p x) := by
  rcases hfetch : w.pool.fetch q with ⟨Q, e | f⟩
  · exact ⟨[], by simp only [World.editPage, hfetch]; rfl, fun h => absurd h List.not_mem_nil⟩
  · refine ⟨[_, .got t q (Q.page f).data], by simp only [World.editPage, hfetch]; rfl, fun h => ?_⟩
    obtain hbad | h := List.mem_cons.1 h
    · cases hbad
    have hX := hw.exclusive_of_rule hk hrule ha
    cases List.mem_singleton.1 h
    have hheld := Option.isSome_of_eq_some hX
    have hstill : k.call.activity.Still := by rw [ha]; trivial
    refine ⟨hheld, not_pendingAt hw hk hheld hstill.not_changes, ?_⟩
    rcases Pool.page_of_fetch hfetch with ⟨hcached, hpage⟩ | hpage
    · exact .inl ⟨f, hw.uses_of_resident hcached, by rw [hpage]⟩
    · exact .inr (by rw [hpage]; rfl)

/-- **A deed hands out only what is on offer.** -/
theorem Steady.onOffer (hw : w.Steady) (hd : d.Harmless w) (h : w.Hands d u p x) : w.OnOffer u p x := by
  obtain ⟨new, hnew, hgot⟩ := h
  have hsame : ∀ evs : History, (w.perform d).history = evs ++ w.history → Event.got u p x ∈ evs := by
    intro evs hevs
    rwa [← List.append_cancel_right (hnew.symm.trans hevs)]
  have hquiet : (w.perform d).history = w.history → w.OnOffer u p x := fun heq =>
    absurd (hsame [] heq) List.not_mem_nil
  cases d with
  | act a =>
    cases a with
    | request s r => exact hquiet rfl
    | edit s q rule => exact hquiet rfl
    | register file => cases List.mem_singleton.1 (hsame [_] rfl)
    | advance s =>
      have hadv : w.perform (.act (.advance s)) = w.advance s := rfl
      rcases w.advance_cases s with ⟨-, heq⟩ | ⟨k, rule, q, use, hk, hrule, ha, heq⟩ | ⟨k, hk, -, heq⟩
      · exact hquiet (by rw [hadv, heq])
      · obtain ⟨evs, hevs, honOffer⟩ := hw.onOffer_edit (u := u) (p := p) (x := x) hk hrule ha
        exact honOffer (hsame evs (by rw [hadv, heq, hevs]))
      · exact hw.onOffer_section hk (hsame _ (by rw [hadv, heq]; rfl))
  | flushPage q => exact hquiet rfl
  | flushAll => exact hquiet rfl
  | flushHeld s => exact hquiet rfl
  | discard q => exact hd.elim
  | disturb disk => exact hd.elim

theorem Pinned.standsAt (hp : w.Pinned p x) (hc : w.Coherent p) (hw : w.Steady) : w.StandsAt p x where
  stored := hp.stored
  before f hf := hp.before f (hw.uses_of_resident hf)
  seen d u y hd hy hown := by
    obtain ⟨hheld, hidle, ⟨f, huses, rfl⟩ | rfl⟩ := hw.onOffer hd hy
    · refine hp.clean f huses ?_ fun hpending => hidle ⟨f, huses.id_eq, hpending⟩
      -- Who has dirtied the frame holds the page alone, and has changed it.
      by_contra hdirty
      obtain ⟨s, hs⟩ := Option.ne_none_iff_exists'.1 hdirty
      have howned := hc.owned f s huses hs
      obtain rfl := LockTable.eq_of_modeOf_exclusive (hw.owned s p howned).1 hheld
      exact howned hown
    · exact hp.stored

end Steps

/-! ## Along a run -/

section Runs

variable {w w' : World} {t : TxnId} {k : Task} {p : PageId} {x : PageData} {capacity : Nat} {draws : Draws}
  {d : Tables} {P : Pool Tables}

theorem coherent_start (hP : Pool.create capacity draws d = .ok P) (p : PageId) : (start P).Coherent p := by
  obtain ⟨-, rfl⟩ := Pool.create_ok hP
  exact ⟨fun f u hf => absurd hf.index_lt (Nat.not_lt_zero _), fun u f hown => absurd rfl hown⟩

/-- In every run a page is coherent. -/
theorem Coherent.comesBy {kind : World → Deed → Prop} (hkind : ∀ v e, kind v e → e.Harmless v) (hw : w.Steady)
    (hc : w.Coherent p) (h : w.ComesBy kind w') : w'.Coherent p := by
  induction h with
  | refl => exact hc
  | step hv he ih =>
    have hsteady := hw.comesBy hkind hv
    exact ih.step hsteady (hsteady.perform (hkind _ _ he)) (hsteady.pageStep (hkind _ _ he))

/-- In a run in which no change of `t` gets lost the latest one stays. -/
theorem Retains.comesBy (hw : w.Steady) (hc : w.Coherent p) (hr : w.Retains t p)
    (h : w.ComesBy (fun v e => e.Harmless v ∧ ¬v.Loses t p e) w') : w'.Retains t p := by
  induction h with
  | refl => exact hr
  | step hv he ih =>
    have hsteady := hw.comesBy (fun _ _ => And.left) hv
    exact ih.step (hc.comesBy (fun _ _ => And.left) hw hv) hsteady (hsteady.perform he.1) he.2
      (hsteady.pageStep he.1)

theorem Pinned.comesBy (hw : w.Steady) (hc : w.Coherent p) (hp : w.Pinned p x)
    (h : w.ComesBy (Deed.Spares p) w') : w'.Pinned p x := by
  induction h with
  | refl => exact hp
  | step hv he ih =>
    have hsteady := hw.comesBy (fun _ _ => Deed.Spares.harmless) hv
    exact ih.step (hc.comesBy (fun _ _ => Deed.Spares.harmless) hw hv) hsteady he
      (hsteady.hasPage_perform he.harmless ih.hasPage) (hsteady.pageStep he.harmless)

/-- **Early flushes spoil nothing.** Pages may have been written out at any time, by anybody. A commit then ends
well, and every page that the transaction has changed stands at the bytes that it had at the commit, as long as
whoever changes it afterwards aborts and it is not written out meanwhile. These bytes are the latest change of the
transaction, unless an install of a change found no room. -/
theorem early_flushes_spoil_nothing (hP : Pool.create capacity draws d = .ok P) (hd : d.Sound)
    (hw : (start P).ComesBy Deed.Harmless w) (hk : w.tasks t = some k)
    (hcommit : k.call.activity = .start (.complete true)) (hchanged : History.own t p w.history ≠ none) :
    (∃ k', (w.perform (.act (.advance t))).tasks t = some k' ∧
      k'.call.activity = .releasing true (.ok ())) ∧
    ((start P).ComesBy (fun v e => e.Harmless v ∧ ¬v.Loses t p e) w →
      History.own t p w.history = some (w.pool.look p)) ∧
    ∀ v, (w.perform (.act (.advance t))).ComesBy (Deed.Spares p) v → v.StandsAt p (w.pool.look p) := by
  have hstart := steady_start hP hd
  have hsteady := hstart.comesBy (fun _ _ => id) hw
  have hcoherent := (coherent_start hP p).comesBy (fun _ _ => id) hstart hw
  have hadvance : Deed.Harmless w (.act (.advance t)) := ⟨trivial, trivial⟩
  have hperform : w.perform (.act (.advance t)) = w.runSection t k := by
    show w.advance t = _
    simp only [advance, hk, hcommit]
    cases k.rule <;> rfl
  obtain ⟨hX, hp⟩ := hsteady.owned t p hchanged
  have hidle : ¬w.PendingAt p :=
    not_pendingAt hsteady hk (Option.isSome_of_eq_some hX) (hcommit ▸ Activity.not_changes_start _)
  have hsettles : w.settles (.act (.advance t)) = some (t, true) := by simp only [settles, hk, hcommit]
  have hgone : History.own t p (w.perform (.act (.advance t))).history = none := by
    rw [hperform]
    show History.own t p (k.events w.pool (k.call.step w.pool).1 (k.call.step w.pool).2 ++ w.history) = none
    simp only [Task.events, hcommit, hsteady.txn hk, List.singleton_append, History.own, if_true]
  refine ⟨?_, fun hkept => ?_, fun v hv => ?_⟩
  · have hok := Pool.flushHeld_ok hsteady.sound hsteady.filed (fun _ _ => hsteady.within) t
    have hstep : k.call.step w.pool =
        ((w.pool.flushHeld t).1, k.call.goOn (.releasing true (.ok ()))) := by
      simp only [Call.step, hcommit, Call.start, hsteady.txn hk, Pool.settlePages, if_true, ← hok]
    rw [hperform, tasks_runSection_self, hstep]
    exact ⟨_, rfl, rfl⟩
  · have hretains : (start P).Retains t p :=
      ⟨fun x f hown => (by cases hown), fun x hown => (by cases hown)⟩
    exact (hretains.comesBy hstart (coherent_start hP p) hkept).look hchanged hidle hsteady
  · have hsteady' := hsteady.perform hadvance
    have hstep := hsteady.pageStep (p := p) hadvance
    have hcoherent' := hcoherent.step hsteady hsteady' hstep
    have hpinned := pinned_of_commit hsteady hcoherent hchanged hidle
      (fun s hs => by rw [hsettles] at hs; cases hs) hgone (hsteady.hasPage_perform hadvance hp) hstep
    exact (hpinned.comesBy hsteady' hcoherent' hv).standsAt
      (hcoherent'.comesBy (fun _ _ => Deed.Spares.harmless) hsteady' hv)
      (hsteady'.comesBy (fun _ _ => Deed.Spares.harmless) hv)

end Runs

/-- Transaction 1 has counted the page up, and it has been written out. -/
theorem counted_early : ∃ w : World, (start smallPool).ComesBy Deed.Harmless w ∧ w.tasks ⟨1⟩ = none ∧
    History.own ⟨1⟩ ⟨⟨1⟩, 0⟩ w.history = some counted ∧ w.pool.look ⟨⟨1⟩, 0⟩ = counted := by
  have hgrant := LockTable.attempt_of_unheld (LockTable.modeOf_empty ⟨⟨1⟩, 0⟩) ⟨1⟩ .exclusive
  obtain ⟨Q, hQ, hres, hframes⟩ : ∃ Q,
      (smallPool.withLocks (smallPool.locks.attempt ⟨⟨1⟩, 0⟩ ⟨1⟩ .exclusive).1).fetch ⟨⟨1⟩, 0⟩ = (Q, .ok ⟨0⟩) ∧
      Q.resident = (∅ : ExtTreeMap PageId FrameId).insert ⟨⟨1⟩, 0⟩ ⟨0⟩ ∧
      Q.frames = #[Page.ofData ⟨⟨1⟩, 0⟩ (smallTables.contents ⟨⟨1⟩, 0⟩)] := by
    refine ⟨_, Pool.fetch_of_room smallTables_sound (by simp [smallPool, Pool.withLocks])
      (by simp [smallPool, Pool.withLocks]) ?_ ?_, rfl, rfl⟩
    · show 0 < smallTables.pages ⟨1⟩
      rw [smallTables_pages]
      decide
    · show smallTables.pages ⟨1⟩ ≤ maxPageNo
      rw [smallTables_pages]
      decide
  have hpage : (Q.page ⟨0⟩).data = smallTables.contents ⟨⟨1⟩, 0⟩ := by simp [Pool.page, hframes, Page.ofData]
  have hrun := edit_alone (w := start smallPool) (t := ⟨1⟩) rfl hgrant hQ countUp
  have hstart : Reachable Action.ThroughPool smallPool (start smallPool) := .start
  have hw := hstart.serve (a := .edit ⟨1⟩ ⟨⟨1⟩, 0⟩ countUp) rfl trivial ⟨1⟩ trivial 3
  rw [hrun] at hw
  refine ⟨_, hw.comesBy.step (d := .flushPage ⟨⟨1⟩, 0⟩) trivial, rfl, ?_, ?_⟩
  · show History.own _ _ (Event.edited _ _ _ _ :: _) = _
    rw [History.own, if_pos ⟨rfl, rfl⟩, hpage]
    rfl
  · -- Writing the page out leaves its frame in the cache, with its data.
    have htidy := Pool.flushIn_tidied [⟨⟨1⟩, 0⟩] (Q.setPage ⟨0⟩ (((Q.page ⟨0⟩).withData
      (countUp (History.reads ⟨1⟩ (start smallPool).history ++ [(Q.page ⟨0⟩).data]))).markDirty ⟨1⟩))
    have hcached : (Q.setPage ⟨0⟩ (((Q.page ⟨0⟩).withData (countUp (History.reads ⟨1⟩ (start smallPool).history ++
        [(Q.page ⟨0⟩).data]))).markDirty ⟨1⟩)).resident[(⟨⟨1⟩, 0⟩ : PageId)]? = some ⟨0⟩ := by
      simp [Pool.setPage, hres]
    refine (Pool.look_of_resident ((congrArg (·[(⟨⟨1⟩, 0⟩ : PageId)]?) htidy.resident).trans hcached)).trans ?_
    rw [htidy.data Page.markClean_data, Pool.page_setPage, if_pos ⟨rfl, by simp [hframes]⟩, hpage]
    rfl

/-- Transaction 1 counts the page up, which is written out, and then it commits. -/
theorem early_flushes_spoil_nothing_counted : ∃ w k, (start smallPool).ComesBy Deed.Harmless w ∧
    w.tasks ⟨1⟩ = some k ∧ k.call.activity = .start (.complete true) ∧
    History.own ⟨1⟩ ⟨⟨1⟩, 0⟩ w.history = some counted ∧
    ∀ v, (w.perform (.act (.advance ⟨1⟩))).ComesBy (Deed.Spares ⟨⟨1⟩, 0⟩) v → v.StandsAt ⟨⟨1⟩, 0⟩ counted := by
  obtain ⟨w, hw, hidle, hown, hlook⟩ := counted_early
  have hw' := hw.step (d := .act (.request ⟨1⟩ (.complete true))) ⟨hidle, trivial⟩
  have htask : (w.perform (.act (.request ⟨1⟩ (.complete true)))).tasks ⟨1⟩ =
      some { call := Call.ofRequest ⟨1⟩ (.complete true) } := by
    simp [perform, act, setTask]
  obtain ⟨-, -, hstands⟩ := early_flushes_spoil_nothing create_smallPool smallTables_sound hw' htask rfl
    (p := ⟨⟨1⟩, 0⟩) (hown ▸ Option.some_ne_none counted)
  refine ⟨_, _, hw', htask, rfl, hown, fun v hv => ?_⟩
  have hv' := hstands v hv
  rwa [show (w.perform (.act (.request ⟨1⟩ (.complete true)))).pool.look ⟨⟨1⟩, 0⟩ = counted from hlook] at hv'

end World

end PageEngine
