import PageEngine.Proofs.World.Alone

/-!
# `Proofs/World/Extension.lean` — what a run adds to a world

A run adds events to the history and pages to the tables, and takes none away. What later events leave of
a page can be told from the history:

> **a page is as it was until somebody changes it and commits**, and a page that exists is not made
> again.
-/

set_option autoImplicit false

namespace PageEngine

open Std

namespace Event

/-- The event changes the page. -/
def Changes (p : PageId) : Event → Prop
  | edited _ q _ _ => q = p
  | stored _ q _ => q = p
  | _ => False

/-- The event brings the page into being. -/
def Makes (p : PageId) : Event → Prop
  | appended q => q = p
  | registered table _ => table = p.table
  | _ => False

end Event

namespace History

variable {origin : PageId → PageData} {t : TxnId} {p : PageId} {later h : History}

theorem own_cons_quiet {e : Event} (hq : ¬e.Changes p) :
    own t p (e :: h) = own t p h ∨ (∃ c, e = .ended t c) ∧ own t p (e :: h) = none := by
  cases e with
  | got u q d => exact .inl rfl
  | edited u q rule d => exact .inl (if_neg fun hc => hq hc.2)
  | stored u q d => exact .inl (if_neg fun hc => hq hc.2)
  | ended u c =>
    by_cases hu : u = t
    · exact .inr ⟨⟨c, by rw [hu]⟩, if_pos hu⟩
    · exact .inl (if_neg hu)
  | appended q => exact .inl rfl
  | registered table bytes => exact .inl rfl

/-- **A transaction keeps its change of a page until it ends or changes the page again.** -/
theorem own_append (hq : ∀ e ∈ later, ¬e.Changes p) (hend : ∀ c, .ended t c ∉ later) :
    own t p (later ++ h) = own t p h := by
  induction later with
  | nil => rfl
  | cons e later ih =>
    have ih := ih (fun x hx => hq x (List.mem_cons_of_mem e hx))
      fun c hc => hend c (List.mem_cons_of_mem e hc)
    rcases own_cons_quiet (t := t) (h := later ++ h) (hq e List.mem_cons_self) with
      hsame | ⟨⟨c, rfl⟩, -⟩
    · exact hsame.trans ih
    · exact absurd List.mem_cons_self (hend c)

/-- A transaction that has not changed a page gets no change of it by the changes of other pages. -/
theorem own_append_none (hq : ∀ e ∈ later, ¬e.Changes p) (hown : own t p h = none) :
    own t p (later ++ h) = none := by
  induction later with
  | nil => exact hown
  | cons e later ih =>
    have ih := ih fun x hx => hq x (List.mem_cons_of_mem e hx)
    rcases own_cons_quiet (t := t) (h := later ++ h) (hq e List.mem_cons_self) with
      hsame | ⟨-, hnone⟩
    · exact hsame.trans ih
    · exact hnone

/-- **What is committed of a page stays as long as nobody changes it**, if none of those who end in the
meantime has changed it before. -/
theorem committed_append (hq : ∀ e ∈ later, ¬e.Changes p ∧ ¬e.Makes p)
    (hown : ∀ t, (∃ c, .ended t c ∈ later) → own t p h = none) :
    committed origin p (later ++ h) = committed origin p h := by
  induction later with
  | nil => rfl
  | cons e later ih =>
    have hquiet : ∀ x ∈ later, ¬x.Changes p ∧ ¬x.Makes p :=
      fun x hx => hq x (List.mem_cons_of_mem e hx)
    have ih := ih hquiet fun t ht =>
      hown t (ht.imp fun c hc => List.mem_cons_of_mem e hc)
    have hmakes := (hq e List.mem_cons_self).2
    cases e with
    | got u q d => exact ih
    | edited u q rule d => exact ih
    | stored u q d => exact ih
    | ended u c =>
      cases c with
      | false => exact ih
      | true =>
        have hnone : own u p (later ++ h) = none :=
          own_append_none (fun x hx => (hquiet x hx).1) (hown u ⟨true, List.mem_cons_self⟩)
        show (own u p (later ++ h)).getD (committed origin p (later ++ h)) = _
        rw [hnone]
        exact ih
    | appended q => exact (if_neg hmakes).trans ih
    | registered table bytes => exact (if_neg hmakes).trans ih

/-- What a transaction has changed in a page is committed when it commits, if nobody changes the page
any more. -/
theorem committed_of_ended {after before h : History}
    (hq : ∀ e ∈ after ++ .ended t true :: before, ¬e.Changes p ∧ ¬e.Makes p)
    (hbefore : ∀ c, .ended t c ∉ before) (hothers : ∀ u, u ≠ t → own u p h = none) :
    committed origin p (after ++ .ended t true :: before ++ h) = view origin t p h := by
  have hqbefore : ∀ e ∈ before, ¬e.Changes p ∧ ¬e.Makes p := fun e he =>
    hq e (List.mem_append_right _ (List.mem_cons_of_mem _ he))
  have hown : own t p (before ++ h) = own t p h :=
    own_append (fun e he => (hqbefore e he).1) hbefore
  have hcom : committed origin p (before ++ h) = committed origin p h := by
    refine committed_append hqbefore fun u hu => hothers u ?_
    rintro rfl
    obtain ⟨c, hc⟩ := hu
    exact hbefore c hc
  have hended : ∀ u, own u p (.ended t true :: before ++ h) = none := by
    intro u
    by_cases hu : t = u
    · exact if_pos hu
    · exact (if_neg hu).trans (own_append_none (fun e he => (hqbefore e he).1)
        (hothers u (Ne.symm hu)))
  rw [List.append_assoc, committed_append
    (fun e he => hq e (List.mem_append_left _ he)) fun u _ => hended u]
  show (own t p (before ++ h)).getD (committed origin p (before ++ h)) = _
  rw [hown, hcom]
  rfl

end History

/-! ## What a step adds -/

theorem exists_other (t : TxnId) : ∃ u : TxnId, u ≠ t := by
  refine ⟨⟨t.raw + 1⟩, fun h => ?_⟩
  have hraw : t.raw + 1 = t.raw := congrArg TxnId.raw h
  omega

/-- No section takes a page away. -/
theorem Keeps.hasPage {origin : PageId → PageData} {t : TxnId} {ch : FrameId → Prop}
    {P P' : Pool Tables} {h h' : History} (hk : Keeps origin t ch P h P' h') {p : PageId}
    (hp : P.storage.HasPage p) : P'.storage.HasPage p := by
  obtain ⟨u, hu⟩ := exists_other t
  exact (hk.rely u hu).hasPage p hp

/-- The only page that a section makes is the one past the end of its table. -/
theorem Task.pageNo_of_makes {k : Task} {P P' : Pool Tables} {c : Call} {e : Event} {p : PageId}
    (he : e ∈ k.events P P' c) (hm : e.Makes p) : p.pageNo = P.storage.pages p.table := by
  unfold Task.events at he
  split at he
  · obtain rfl := List.mem_singleton.1 he
    exact hm.elim
  · obtain rfl := List.mem_singleton.1 he
    exact hm.elim
  · split at he
    · exact absurd he List.not_mem_nil
    · obtain rfl := List.mem_singleton.1 he
      obtain rfl : _ = p := hm
      rfl
  · split at he
    · obtain rfl := List.mem_singleton.1 he
      exact hm.elim
    · exact absurd he List.not_mem_nil
  · exact absurd he List.not_mem_nil

/-- A section hands out the page that its call works on. -/
theorem Task.got_mem_events {k : Task} {P P' : Pool Tables} {c : Call} {u : TxnId} {p : PageId}
    {x : PageData} (he : .got u p x ∈ k.events P P' c) :
    ∃ f use, k.call.activity = .working p f use := by
  unfold Task.events at he
  split at he
  · simp at he
  · rename_i q f use ha
    obtain ⟨-, rfl, -⟩ : u = _ ∧ p = q ∧ _ := by simpa using he
    exact ⟨f, use, ha⟩
  · split at he <;> simp at he
  · split at he <;> simp at he
  · simp at he

namespace World

/-- The pages of `w` are there still, what happened since has not made them, and what was handed out
since is there. -/
structure Extends (w w' : World) : Prop where
  hasPage : ∀ p, w.pool.storage.HasPage p → w'.pool.storage.HasPage p
  history : ∃ later, w'.history = later ++ w.history ∧
    (∀ p, w.pool.storage.HasPage p → ∀ e ∈ later, ¬e.Makes p) ∧
    ∀ t p x, .got t p x ∈ later → w'.pool.storage.HasPage p

theorem Extends.quiet {w w' : World} (hp : ∀ p, w.pool.storage.HasPage p → w'.pool.storage.HasPage p)
    (hh : w'.history = w.history) : w.Extends w' where
  hasPage := hp
  history := ⟨[], hh, fun _ _ _ he => absurd he List.not_mem_nil,
    fun _ _ _ he => absurd he List.not_mem_nil⟩

theorem Extends.trans {w w' w'' : World} (h : w.Extends w') (h' : w'.Extends w'') :
    w.Extends w'' where
  hasPage p hp := h'.hasPage p (h.hasPage p hp)
  history := by
    obtain ⟨later, hist, hnew, hgot⟩ := h.history
    obtain ⟨later', hist', hnew', hgot'⟩ := h'.history
    refine ⟨later' ++ later, by rw [hist', hist, List.append_assoc], ?_, ?_⟩
    · intro p hp e he
      rcases List.mem_append.1 he with he | he
      · exact hnew' p (h.hasPage p hp) e he
      · exact hnew p hp e he
    · intro t p x he
      rcases List.mem_append.1 he with he | he
      · exact hgot' t p x he
      · exact h'.hasPage p (hgot t p x he)

variable {origin : PageId → PageData} {w : World} {t : TxnId} {k : Task}

/-- A client that overwrites a page fails to get it, or hands it to itself and changes it. -/
theorem Inv.extends_editPage (hw : w.Inv origin) (hk : w.tasks t = some k) {rule : Rule} {p : PageId}
    {use : Use} (hrule : k.rule = some rule) (ha : k.call.activity = .fetching p use) :
    w.Extends (w.editPage t p rule) := by
  obtain ⟨P, h, heq, hserves, hist⟩ := hw.serves_editPage hk hrule ha
  rw [heq]
  rcases hist with rfl | rfl
  · exact .quiet (fun q hq => hserves.keeps.hasPage hq) rfl
  · have hpage : P.storage.HasPage p := hserves.keeps.pool.hasPage_of_own (if_pos ⟨rfl, rfl⟩)
    refine ⟨fun q hq => hserves.keeps.hasPage hq, [_, _], rfl, ?_, ?_⟩
    · intro q _ e he
      rcases List.mem_cons.1 he with rfl | he
      · exact id
      · obtain rfl := List.mem_singleton.1 he
        exact id
    · intro u q x he
      obtain ⟨-, rfl, -⟩ : u = t ∧ q = p ∧ x = _ := by simpa using he
      exact hpage

theorem Inv.extends_advance (hw : w.Inv origin) (t : TxnId) : w.Extends (w.advance t) := by
  rcases w.advance_cases t with ⟨-, heq⟩ | ⟨k, rule, p, use, hk, hrule, ha, heq⟩ | ⟨k, hk, hrule, heq⟩
  · rw [heq]
    exact .quiet (fun _ hp => hp) rfl
  · rw [heq]
    exact hw.extends_editPage hk hrule ha
  · rw [heq]
    have hkeep := (servesNext (hw.pool_of_task hk) (hw.tasks t k hk) (hw.unclaimed t) hrule).keeps
    refine ⟨fun p hp => hkeep.hasPage hp, _, rfl, ?_, ?_⟩
    · intro p hp e he hm
      have hlt := hp.1
      rw [Task.pageNo_of_makes he hm] at hlt
      exact Nat.lt_irrefl _ hlt
    · intro u p x he
      obtain ⟨f, use, ha⟩ := Task.got_mem_events he
      have hinv := (hw.tasks t k hk).activity
      rw [ha] at hinv
      exact hkeep.hasPage hinv.2.2.1.image.hasPage

/-- **An action takes no page away, makes none that exists and hands out none that does not.** -/
theorem Inv.extends_act (hw : w.Inv origin) {a : Action} (ha : a.Enabled w) : w.Extends (w.act a) := by
  cases a with
  | request t r => exact .quiet (fun _ hp => hp) rfl
  | edit t p rule => exact .quiet (fun _ hp => hp) rfl
  | advance t => exact hw.extends_advance t
  | register file =>
    refine ⟨(Tables.grown_register hw.pool.sound ha).hasPage, [_], rfl, ?_, ?_⟩
    · intro p hp e he hm
      obtain rfl := List.mem_singleton.1 he
      -- A table with pages has a store already.
      obtain ⟨x, hx, -⟩ := hp.registered hw.pool.sound
      have hnone := ha.table
      rw [show file.table = p.table from hm, hx] at hnone
      cases hnone
    · intro u p x he
      simp at he

end World

end PageEngine
