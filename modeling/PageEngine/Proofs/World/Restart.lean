import PageEngine.Proofs.World.Alone

/-!
# `Proofs/World/Restart.lean` — what is left when a pool is dropped

Between calls the stores hold what was committed and nothing else, whatever the cache holds: the changes
of transactions that have not committed are in the cache only. So a pool can be dropped at any such
moment:

> **a new pool over the same stores shows exactly the committed work**,

to everybody who reads a page, and in every run that follows.
-/

set_option autoImplicit false

namespace PageEngine

/-- The page of a new pool that is fetched first comes from its store. -/
theorem Pool.fetch_new {capacity : Nat} {draws : Draws} {d : Tables} {Q : Pool Tables}
    (hQ : Pool.create capacity draws d = .ok Q) (hd : d.Sound) {p : PageId}
    (hp : p.pageNo < d.pages p.table) (hmax : d.pages p.table ≤ maxPageNo) :
    ∃ R f, Q.fetch p = (R, .ok f) ∧ R.page f = Page.ofData p (d.contents p) := by
  obtain ⟨hroom, rfl⟩ := Pool.create_ok hQ
  refine ⟨_, _, Pool.fetch_of_room hd (by simp) hroom hp hmax, ?_⟩
  exact (Pool.page_congr rfl _).trans (Pool.page_nextFrame _ _)

namespace World

/-- No call is running: every call in flight waits for the lock of a page. -/
def Quiet (w : World) : Prop :=
  ∀ t k, w.tasks t = some k → ∃ ticket p m use, k.call.activity = .sleeping ticket p m use

variable {capacity : Nat} {draws : Draws} {d : Tables} {P : Pool Tables} {w : World}

theorem Quiet.not_changedBy (hq : w.Quiet) (f : FrameId) : ¬∃ t, w.ChangedBy t f := by
  rintro ⟨t, k, hk, fs, hfs⟩
  obtain ⟨ticket, p, m, use, ha⟩ := hq t k hk
  rw [ha] at hfs
  cases hfs

/-- **Restart shows exactly the committed work**: in the stores, in the cached pages, and in the runs of every new
pool over the stores. That the first fetch of a page from a new pool succeeds is said of the tables that have no
more pages than page numbers count; a page of a larger table cannot be read at all. -/
theorem restart_shows_committed (hP : Pool.create capacity draws d = .ok P) (hd : d.Sound)
    (hw : Reachable Action.ThroughPool P w) (hq : w.Quiet) :
    (∀ p, w.pool.storage.contents p = History.committed d.contents p w.history) ∧
    (∀ p f, w.pool.resident[p]? = some f →
      (w.pool.page f).beforeImage = w.pool.storage.contents p ∧
      ((w.pool.page f).isClean = true → (w.pool.page f).data = w.pool.storage.contents p)) ∧
    (∀ capacity' draws' Q, Pool.create capacity' draws' w.pool.storage = .ok Q →
      (∀ p : PageId, p.pageNo < w.pool.storage.pages p.table →
        w.pool.storage.pages p.table ≤ maxPageNo → ∃ R f, Q.fetch p = (R, .ok f) ∧
          R.page f = Page.ofData p (History.committed d.contents p w.history)) ∧
      ∀ v, Reachable Action.ThroughPool Q v →
        History.Honest (fun p => History.committed d.contents p w.history) v.history) := by
  obtain ⟨hinv, -⟩ := Reachable.inv (fun _ ha => ha) hP hd hw
  have hstored := hinv.pool.stored
  refine ⟨hstored, ?_, fun capacity' draws' Q hQ => ⟨?_, ?_⟩⟩
  · intro p f hf
    have hc := hinv.pool.cached p f hf
    exact ⟨hc.image.before_eq, fun hclean =>
      hc.clean (Page.isClean_iff _ |>.1 hclean) (hq.not_changedBy f)⟩
  · intro p hp hmax
    rw [← hstored]
    exact Pool.fetch_new hQ hinv.pool.sound hp hmax
  · intro v hv
    rw [← funext hstored]
    exact (Reachable.inv (fun _ ha => ha) hQ hinv.pool.sound hv).2

/-- What the first transaction has committed is in the store after the handover. -/
theorem restart_shows_committed_small : ∃ w, Reachable Action.ThroughPool smallPool w ∧ w.Quiet ∧
    w.history = smallHistory ∧ w.pool.storage.contents ⟨⟨1⟩, 0⟩ = counted := by
  obtain ⟨w, hw, hidle, hist⟩ := handover_small
  have hw := hw.mono fun _ => Action.PageWise.throughPool
  have hq : w.Quiet := fun t k hk => by rw [hidle t] at hk; cases hk
  have hstored := (restart_shows_committed create_smallPool smallTables_sound hw hq).1 ⟨⟨1⟩, 0⟩
  refine ⟨w, hw, hq, hist, ?_⟩
  rw [hstored, hist]
  rfl

end World

end PageEngine
