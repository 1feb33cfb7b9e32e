import PageEngine.Proofs.Pool.Alike
import PageEngine.Proofs.World.Capacity
import PageEngine.Proofs.World.Invariant

/-!
# `Proofs/World/Twins.lean` — the sections of a call in alike pools

Two calls are twins if they serve the same request and have come to the same section; the images that they
work with may have different names, but they are images of the same page. A section of twin calls in alike
pools leaves alike pools and twin calls (`Task.Twin.step`), and

> **what a client is told is the same**: results carry the contents of pages and not the names of images.

Most sections look at the locks and the storage only, and there is nothing to be shown for them. Three look
into the cache: a fetch, an install and the end of a transaction.
-/

set_option autoImplicit false

namespace PageEngine

open Std Pool

/-! ## What clients see -/

/-- What a client sees of an answer: of an image its page and its contents. -/
inductive Seen where
  | done
  | page (p : PageId) (data : PageData)
  | rows (ts : List Tuple)
  | pages (ps : List (PageId × PageData))

/-- What a client is told: the result of its call, and its tuple with the record id that it got. -/
structure Reply where
  result : Except Error Seen
  tuple : Tuple

def Answer.seen (P : Pool Tables) : Answer → Seen
  | .done => .done
  | .frame f => .page (P.page f).id (P.page f).data
  | .rows ts => .rows ts
  | .frames fs => .pages (fs.map fun f => ((P.page f).id, (P.page f).data))

theorem Answer.seen_of_images {a : Answer} (h : a.images = []) (P Q : Pool Tables) : a.seen Q = a.seen P := by
  cases a with
  | done => rfl
  | frame f => cases h
  | rows ts => rfl
  | frames fs =>
    obtain rfl : fs = [] := h
    rfl

/-- What the client of a call is told, once the call has its result. -/
def Call.told (c : Call) (P : Pool Tables) : Option Reply :=
  c.result?.map fun r => ⟨r.map (Answer.seen P), c.tuple⟩

/-- Images of one page that are given the same contents and marked are the same. -/
theorem Image.marked_alike {P Q : Pool Tables} {p : PageId} {f g : FrameId} (h : Alike P Q) (hf : Image P p f)
    (hg : Image Q p g) (d : PageData) (t : TxnId) :
    ((Q.page g).withData d).markDirty t = ((P.page f).withData d).markDirty t := by
  show Page.mk (Q.page g).id d (some t) (Q.page g).beforeImage =
    Page.mk (P.page f).id d (some t) (P.page f).beforeImage
  rw [hf.id_eq, hg.id_eq, hf.before_eq, hg.before_eq, h.storage]

/-- Images that were handed to the same transaction have the same contents. -/
theorem Handed.data_alike {P Q : Pool Tables} {h : History} {t : TxnId} {p : PageId} {f g : FrameId}
    (hp : Alike P Q) (hf : Handed P h t p f) (hg : Handed Q h t p g) :
    (Q.page g).data = (P.page f).data := by
  rw [hg.data_eq, hf.data_eq, shown, shown, hp.storage]

/-! ## Twin calls -/

/-- Two calls have come to the same section, with images of the same page. -/
inductive Activity.Twin (P Q : Pool Tables) : Activity → Activity → Prop
  | same {a : Activity} : a.images = [] → Twin P Q a a
  | working (p : PageId) (f g : FrameId) (use : Use) : Twin P Q (.working p f use) (.working p g use)
  | installing {f g : FrameId} : (Q.page g).id = (P.page f).id → Twin P Q (.installing [f]) (.installing [g])
  | finished (r s : Except Error Answer) : Twin P Q (.finished r) (.finished s)

/-- Two calls stay twins as long as their images keep their pages. -/
theorem Activity.Twin.mono {P Q P' Q' : Pool Tables} {a b : Activity} (h : Twin P Q a b)
    (ha : ∀ f ∈ a.images, (P'.page f).id = (P.page f).id)
    (hb : ∀ f ∈ b.images, (Q'.page f).id = (Q.page f).id) : Twin P' Q' a b := by
  cases h with
  | same hnone => exact .same hnone
  | working p f g use => exact .working p f g use
  | installing hid => exact .installing (by rw [hb _ List.mem_cons_self, hid, ha _ List.mem_cons_self])
  | finished r s => exact .finished r s

structure Call.Twin (P Q : Pool Tables) (c e : Call) : Prop where
  txn : e.txn = c.txn
  tuple : e.tuple = c.tuple
  installs : e.installs = c.installs
  activity : Activity.Twin P Q c.activity e.activity

theorem Call.Twin.eq_goOn {P Q : Pool Tables} {c e : Call} (h : Call.Twin P Q c e) : e = c.goOn e.activity := by
  obtain ⟨htxn, htuple, hinst, -⟩ := h
  cases e
  cases c
  simp_all [Call.goOn]

/-- Two calls in flight are twins, and so are their clients. -/
structure Task.Twin (P Q : Pool Tables) (k m : Task) : Prop where
  live : k.call.result? = none
  rule : m.rule = k.rule
  draft : m.draft = k.draft
  call : Call.Twin P Q k.call m.call

/-- What a section makes of two pools and their calls: it comes to the same. -/
structure Outcome (r s : Pool Tables × Call) : Prop where
  pool : Alike r.1 s.1
  call : Call.Twin r.1 s.1 r.2 s.2
  told : s.2.told s.1 = r.2.told r.1

namespace Outcome

variable {origin : PageId → PageData} {P Q R S : Pool Tables} {h : History} {t : TxnId} {c : Call}
  {p : PageId} {f g : FrameId} {n : Nat}

/-- A section that comes to the same call, which works with no image. -/
theorem same (hp : Alike R S) (hc : c.activity.images = []) : Outcome (R, c) (S, c) where
  pool := hp
  call := ⟨rfl, rfl, rfl, .same hc⟩
  told := by
    dsimp only [Call.told]
    cases hr : c.result? with
    | none => rfl
    | some r =>
      rw [Call.result?_eq_some.1 hr] at hc
      cases r with
      | error e => rfl
      | ok a => exact congrArg (fun s => some (Reply.mk (.ok s) c.tuple)) (Answer.seen_of_images hc R S)

/-! ## Sections that look at the locks and the storage -/

theorem start (hp : Alike P Q) (hd : P.storage.Sound) {r : Request} (hr : (Action.request t r).ThroughPool)
    (hne : ∀ commit, r ≠ .complete commit) : Outcome (c.start P r) (c.start Q r) := by
  cases r with
  | lock q m => exact same hp rfl
  | get q a => exact same hp rfl
  | scan x =>
    simp only [Call.start, hp.storage]
    cases x.numPages P.storage.disk with
    | error e => exact same hp rfl
    | ok pages => exact same hp (c.images_collectNext x pages 0 [])
  | insert table tuple =>
    simp only [Call.start, hp.storage]
    cases hs : P.storage.store table with
    | error e => exact same hp rfl
    | ok s =>
      obtain ⟨x, rfl, -⟩ := hd.heap_of_store hs
      simp only [Call.startInsert]
      split
      · exact same hp rfl
      · exact same hp rfl
  | delete tuple =>
    simp only [Call.start, hp.storage]
    cases tuple.recordId with
    | none => exact same hp rfl
    | some r =>
      dsimp only
      cases hs : P.storage.store r.page.table with
      | error e => exact same hp rfl
      | ok s =>
        obtain ⟨x, rfl, -⟩ := hd.heap_of_store hs
        simp only [Call.startDelete]
        split
        · exact same hp rfl
        · split
          · exact same hp rfl
          · exact same hp rfl
  | insertInto s tuple => exact hr.elim
  | deleteFrom s tuple => exact hr.elim
  | complete commit => exact absurd rfl (hne commit)

theorem attempt (hp : Alike P Q) (p : PageId) (m : Mode) (use : Use) :
    Outcome (c.attemptLock P p m use) (c.attemptLock Q p m use) := by
  simp only [Call.attemptLock, hp.locks]
  rcases P.locks.attempt p c.txn m with ⟨L, _ | ticket | _⟩
  · exact same (hp.withLocks L) (by cases use <;> rfl)
  · exact same (hp.withLocks L) rfl
  · exact same (hp.withLocks L) rfl

theorem tryNext (hp : Alike P Q) (i : Insertion) : Outcome (P, c.tryNext P i) (Q, c.tryNext Q i) := by
  have hsame : c.tryNext Q i = c.tryNext P i := by rw [Call.tryNext, Call.tryNext, hp.locks]
  rw [hsame]
  exact same hp (c.images_tryNext P i)

/-! ## Sections that look into the cache -/

theorem complete (hp : Alike P Q) (hP : Ready n P) (hQ : Ready n Q) (commit : Bool) :
    Outcome (c.start P (.complete commit)) (c.start Q (.complete commit)) := by
  obtain ⟨R, S, r, hR, hS, hRS⟩ := hp.settle hP hQ c.txn commit
  simp only [Call.start, hR, hS]
  exact same hRS rfl

theorem fetching (hn : 0 < n) (hp : Alike P Q) (hP : Ready n P) (hQ : Ready n Q) {use : Use}
    (ha : c.activity = .fetching p use) : Outcome (c.step P) (c.step Q) := by
  simp only [Call.step, ha]
  rcases hp.fetch hn hP hQ p with ⟨R, S, f, g, hR, hS, hRS, -, -⟩ | ⟨R, S, e, hR, hS, hRS⟩
  · simp only [hR, hS]
    exact ⟨hRS, ⟨rfl, rfl, rfl, .working p f g use⟩, rfl⟩
  · simp only [hR, hS]
    exact same hRS rfl

/-- A call writes into its image of a page. -/
theorem draft (hp : Alike P Q) (hP : P.Filed) (hQ : Q.Filed) (hf : Handed P h t p f) (hg : Handed Q h t p g)
    (hwf : Writable P t p f) (hwg : Writable Q t p g) (hinst : c.installs = true) (d : PageData) :
    Outcome (P.setPage f ((P.page f).withData d), c.changed [f])
      (Q.setPage g ((Q.page g).withData d), c.changed [g]) := by
  have hfid := hf.image.id_eq
  have hgid := hg.image.id_eq
  simp only [Call.changed, hinst, if_true]
  refine ⟨?_, ⟨rfl, rfl, rfl, .installing ?_⟩, rfl⟩
  · refine hp.overwrite hP hQ hf.image.index_lt hg.image.index_lt (hgid.trans hfid.symm) ?_ ?_ d
    · rw [hfid]
      exact hwf.resident
    · rw [hgid]
      exact hwg.resident
  · rw [page_setPage, page_setPage, if_pos ⟨rfl, hg.image.index_lt⟩, if_pos ⟨rfl, hf.image.index_lt⟩]
    exact hgid.trans hfid.symm

/-- A call does with its image of a page what it wants the page for. -/
theorem working (hp : Alike P Q) (hP : P.Filed) (hQ : Q.Filed) (hf : Handed P h t p f) (hg : Handed Q h t p g)
    {use : Use} (hwf : use.Writes → Writable P t p f) (hwg : use.Writes → Writable Q t p g)
    (hinst : c.installs = true) : Outcome (c.useFrame P p f use) (c.useFrame Q p g use) := by
  have hdata := hf.data_alike hp hg
  cases use with
  | holdLock => exact same hp rfl
  | deliver =>
    refine ⟨hp, ⟨rfl, rfl, rfl, .finished _ _⟩, ?_⟩
    simp only [Call.useFrame, Call.told, Call.finish, Call.goOn, Call.result?, Option.map_some, Except.map,
      Answer.seen, hf.image.id_eq, hg.image.id_eq, hdata]
  | collect x pages next rows =>
    simp only [Call.useFrame, hdata]
    exact same hp (c.images_collectNext x _ _ _)
  | place i =>
    simp only [Call.useFrame, Call.place, hdata]
    split
    · rename_i slot _
      exact draft (c := { c with tuple := { c.tuple with recordId := some ⟨i.page, slot⟩ } }) hp hP hQ hf hg
        (hwf trivial) (hwg trivial) hinst _
    · split
      · exact tryNext hp _
      · exact same hp rfl
  | remove x slot =>
    simp only [Call.useFrame, Call.remove, hdata]
    split
    · exact draft hp hP hQ hf hg (hwf trivial) (hwg trivial) hinst _
    · exact same hp rfl

theorem installing (hn : 0 < n) (hp : Alike P Q) (hP : Bounded n P) (hQ : Bounded n Q) {d : PageData}
    (hf : Drafted P t f d) (hg : Drafted Q t g d) (hid : (Q.page g).id = (P.page f).id)
    (ha : c.activity = .installing [f]) :
    Outcome (c.step P) ((c.goOn (.installing [g])).step Q) := by
  have hmark := Image.marked_alike hp hf.image (hid ▸ hg.image) d c.txn
  rw [← hg.data_eq, Page.withData_self, hg.data_eq, ← hf.data_eq, Page.withData_self] at hmark
  obtain ⟨R, S, r, hR, hS, hRS⟩ := hp.install hn hP hQ hf.image.index_lt hg.image.index_lt hmark
  cases r with
  | error e =>
    simp only [Call.step, ha, hR, Call.goOn, hS]
    exact same hRS rfl
  | ok u =>
    simp only [Call.step, ha, hR, Call.goOn, hS]
    exact same hRS rfl

/-- What the sections do that work with no image and do not end a transaction. -/
theorem blind (hn : 0 < n) (hp : Alike P Q) (hP : Ready n P) (hQ : Ready n Q) {edits : Bool}
    {draft : Option PageData} (hinv : ActivityInv P h t edits draft c.activity) (hnone : c.activity.images = []) :
    Outcome (c.step P) (c.step Q) := by
  cases ha : c.activity with
  | start r =>
    rw [ha] at hinv
    simp only [Call.step, ha]
    cases r with
    | complete commit => exact complete hp hP hQ commit
    | _ => exact start hp hP.sound hinv.1 (by simp)
  | locking p m use =>
    simp only [Call.step, ha]
    exact attempt hp p m use
  | sleeping ticket p m use =>
    simp only [Call.step, ha, hp.locks]
    split
    · exact same hp hnone
    · exact attempt hp p m use
  | fetching p use => exact fetching hn hp hP hQ ha
  | working p f use =>
    rw [ha] at hnone
    cases hnone
  | dropping i =>
    simp only [Call.step, ha, releasePage, hp.locks]
    rcases P.locks.release i.page c.txn with ⟨L, e | ⟨⟩⟩
    · exact same (hp.withLocks L) rfl
    · exact tryNext (hp.withLocks L) _
  | counting i =>
    simp only [Call.step, ha, hp.storage]
    cases i.heap.numPages P.storage.disk with
    | error e => exact same hp rfl
    | ok pages => exact tryNext hp _
  | growing i =>
    simp only [Call.step, ha, hp.storage]
    rcases i.heap.append P.storage.disk i.pages with ⟨disk, e | ⟨⟩⟩
    · exact same (hp.restock _) rfl
    · exact same (hp.restock _) rfl
  | installing fs =>
    rw [ha] at hnone
    obtain rfl : fs = [] := hnone
    simp only [Call.step, ha]
    exact same hp rfl
  | releasing commit r =>
    simp only [Call.step, ha, releaseAll, hp.locks]
    exact same (hp.withLocks _) rfl
  | ending commit r =>
    simp only [Call.step, ha]
    exact same (hp.tally _ _) (by cases r <;> rfl)
  | finished r =>
    simp only [Call.step, ha]
    exact same hp hnone

end Outcome

/-! ## Calls in flight -/

section Tasks

variable {P Q : Pool Tables} {r s : Pool Tables × Call} {h : History} {t : TxnId} {k m : Task} {p : PageId}
  {f g : FrameId} {n : Nat}

/-- What a call does with an image does not depend on the section that it was at. -/
theorem Call.useFrame_goOn (c : Call) (a : Activity) (P : Pool Tables) (p : PageId) (f : FrameId) (use : Use) :
    (c.goOn a).useFrame P p f use = c.useFrame P p f use := by
  cases use with
  | place i =>
    simp only [useFrame, place]
    split
    · rfl
    · rfl
  | _ => rfl

/-- Images with the same contents have the same contents after they were worked on. -/
theorem Call.data_useFrame (c : Call) (hf : f.index < P.frames.size) (hg : g.index < Q.frames.size)
    (hdata : (Q.page g).data = (P.page f).data) (use : Use) :
    ((c.useFrame Q p g use).1.page g).data = ((c.useFrame P p f use).1.page f).data := by
  have hset : ∀ d, ((Q.setPage g ((Q.page g).withData d)).page g).data =
      ((P.setPage f ((P.page f).withData d)).page f).data := fun d => by
    rw [page_setPage, page_setPage, if_pos ⟨rfl, hg⟩, if_pos ⟨rfl, hf⟩]
    rfl
  cases use with
  | place i =>
    simp only [useFrame, place, hdata]
    split
    · exact hset _
    · split
      · exact hdata
      · exact hdata
  | remove x slot =>
    simp only [useFrame, remove, hdata]
    split
    · exact hset _
    · exact hdata
  | _ => exact hdata

/-- **The next sections of twin calls come to the same.** -/
theorem Task.Twin.step (hkm : Task.Twin P Q k m) (hn : 0 < n) (hp : Alike P Q) (hP : Ready n P)
    (hQ : Ready n Q) (hk : TaskInv P h t k) (hm : TaskInv Q h t m) :
    Outcome (k.call.step P) (m.call.step Q) ∧ m.nextDraft (m.call.step Q).1 = k.nextDraft (k.call.step P).1 := by
  have heq := hkm.call.eq_goOn
  have hact := hkm.call.activity
  have hinv := hk.activity
  have hinv' := hm.activity
  generalize ha : k.call.activity = a at hact hinv
  generalize hb : m.call.activity = b at hact hinv' heq
  cases hact with
  | same hnone =>
    have hcall : m.call = k.call := by rw [heq, ← ha]; rfl
    rw [hcall]
    refine ⟨.blind hn hp hP hQ (ha ▸ hinv) (ha ▸ hnone), ?_⟩
    rw [nextDraft, nextDraft, hcall, ha]
    split
    · cases hnone
    · exact hkm.draft
  | working p f g use =>
    obtain ⟨-, -, hf, hwf⟩ := hinv
    obtain ⟨-, -, hg, hwg⟩ := hinv'
    have hstep : k.call.step P = k.call.useFrame P p f use := by simp only [Call.step, ha]
    have hstep' : m.call.step Q = k.call.useFrame Q p g use := by
      rw [heq, ← k.call.useFrame_goOn (.working p g use)]
      rfl
    rw [hstep, hstep', nextDraft, nextDraft, ha, hb]
    exact ⟨.working hp hP.bounded.filed hQ.bounded.filed hf hg hwf hwg hk.installs, congrArg some
      (k.call.data_useFrame hf.image.index_lt hg.image.index_lt (hf.data_alike hp hg) use)⟩
  | installing hid =>
    obtain ⟨d, hd, hf⟩ := hinv
    obtain ⟨d', hd', hg⟩ := hinv'
    obtain rfl : d = d' := Option.some.inj (hd.symm.trans (hkm.draft.symm.trans hd'))
    rw [heq, nextDraft, nextDraft, ha, hb]
    exact ⟨.installing hn hp hP.bounded hQ.bounded hf hg hid ha, hkm.draft⟩
  | finished r s =>
    have hlive := hkm.live
    rw [Call.result?_eq_some.2 ha] at hlive
    cases hlive

/-- Twin calls in flight have both a result, or both none. -/
theorem Outcome.isSome_result (hout : Outcome r s) : s.2.result?.isSome = r.2.result?.isSome := by
  have htold := congrArg Option.isSome hout.told
  rwa [Call.told, Call.told, Option.isSome_map, Option.isSome_map] at htold

theorem Task.Twin.after (hkm : Task.Twin P Q k m) (hout : Outcome r s)
    (hdraft : m.nextDraft s.1 = k.nextDraft r.1) :
    Option.Rel (Task.Twin r.1 s.1) (k.after r.1 r.2) (m.after s.1 s.2) := by
  rw [Task.after, Task.after, hout.isSome_result]
  split
  · exact .none
  · rename_i hno
    refine .some ⟨?_, hkm.rule, hdraft, hout.call⟩
    simpa using hno

/-- What is seen to happen is the same. -/
theorem Task.Twin.events (hkm : Task.Twin P Q k m) (hp : Alike P Q) (hout : Outcome r s)
    (hk : TaskInv P h t k) (hm : TaskInv Q h t m) : m.events Q s.1 s.2 = k.events P r.1 r.2 := by
  have htxn := hkm.call.txn
  have hact := hkm.call.activity
  have hinv := hk.activity
  have hinv' := hm.activity
  have hres := hout.isSome_result
  unfold Task.events
  generalize ha : k.call.activity = a at hact hinv
  generalize hb : m.call.activity = b at hact hinv'
  cases hact with
  | same hnone =>
    cases a with
    | start r => cases r <;> simp only [htxn]
    | working p f use => cases hnone
    | growing i => simp only [hp.storage, hout.pool.storage]
    | installing fs =>
      obtain rfl : fs = [] := hnone
      rfl
    | _ => rfl
  | working p f g use =>
    obtain ⟨-, -, hf, -⟩ := hinv
    obtain ⟨-, -, hg, -⟩ := hinv'
    simp only [htxn, hf.data_alike hp hg]
  | installing hid =>
    simp only [htxn, hid, hkm.draft]
    cases hr : r.2.result? <;> cases hs : s.2.result? <;> simp_all
  | finished r s => rfl

end Tasks

end PageEngine
