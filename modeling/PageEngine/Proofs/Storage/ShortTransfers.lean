import PageEngine.Proofs.Storage.Kinds

/-!
# `Proofs/Storage/ShortTransfers.lean` — transfers that the operating system cuts short

A call of the operating system moves at least one byte and no more than remain; how many is its own
choice, at every call anew. `Writing.Call` and `Reading.Call` are these choices, one call at a time, and a
transfer is any sequence of them. The loops of a file make such a sequence.

> **whatever is chosen, a transfer ends within as many calls as it has bytes, and what it leaves does not
> show the choices**: a write leaves the file overlaid by the whole source, a read has the bytes of its
> range, or stands at the end of the file.

The invariant is that a sequence of calls has moved one stretch: two stretches moved one after the other
are one (`Bytes.overlay_append`, `Bytes.slice_append`).
-/

set_option autoImplicit false

namespace PageEngine

/-! ## Writes -/

/-- A write on its way: the file so far, and how many bytes of the source are in it. -/
structure Writing where
  file : SystemFile
  put : Nat

namespace Writing

variable {off n : Nat} {src : Bytes} {w v u : Writing}

/-- One call that writes some of what remains of `src`. -/
inductive Call (off : Nat) (src : Bytes) (w : Writing) : Writing → Prop
  | moved {n : Nat} (hpos : 0 < n) (hle : n ≤ src.size - w.put) :
      Call off src w ⟨⟨w.file.bytes.overlay (off + w.put) (src.slice w.put n)⟩, w.put + n⟩

/-- A number of calls in a row. -/
inductive Calls (off : Nat) (src : Bytes) : Nat → Writing → Writing → Prop
  | none {w : Writing} : Calls off src 0 w w
  | more {n : Nat} {w v u : Writing} : w.Call off src v → Calls off src n v u → Calls off src (n + 1) w u

/-- Every call moves something, and none moves more than there is. -/
theorem Calls.bounds (h : Calls off src n w u) (hw : w.put ≤ src.size) :
    n + w.put ≤ u.put ∧ u.put ≤ src.size := by
  induction h with
  | none => exact ⟨by omega, hw⟩
  | more hcall _ ih =>
    obtain ⟨hpos, hle⟩ := hcall
    have hrest := ih (by dsimp only; omega)
    dsimp only at hrest
    omega

/-- **What a sequence of calls has written is one stretch of the source.** -/
theorem Calls.stretch (h : Calls off src n w u) (hw : w.put ≤ src.size) :
    u = w ∨ u.file.bytes = w.file.bytes.overlay (off + w.put) (src.slice w.put (u.put - w.put)) := by
  induction h with
  | none => exact .inl rfl
  | @more n w v u hcall hcalls ih =>
    obtain ⟨hpos, hle⟩ := hcall
    rename_i m
    have hput : w.put + m ≤ src.size := by omega
    have hbounds := hcalls.bounds hput
    dsimp only at hbounds
    right
    rcases ih hput with rfl | hrest
    · dsimp only
      rw [Nat.add_sub_cancel_left]
    · have happ := w.file.bytes.overlay_append (off + w.put) (src.slice w.put m)
        (src.slice (w.put + m) (u.put - (w.put + m)))
      have hlen : m + (u.put - (w.put + m)) = u.put - w.put := by omega
      rw [Bytes.size_slice, Bytes.slice_append, hlen, Nat.add_assoc] at happ
      rw [hrest, happ]

end Writing

namespace SystemFile

/-- The loop of a write makes calls until nothing remains. -/
theorem writeFrom_calls {moves : Transfers} (hmoves : ∀ k, 0 < moves k) {off : Nat} {src : Bytes} :
    ∀ (f : SystemFile) (k put : Nat), put ≤ src.size →
      ∃ n, Writing.Calls off src n ⟨f, put⟩ ⟨(f.writeFrom moves off src k put).1, src.size⟩ := by
  intro f k put
  induction f, k, put using writeFrom.induct moves off src with
  | case1 f k put hlt n hn =>
    intro _
    have hpos := hmoves k
    simp only [n] at hn
    omega
  | case2 f k put hlt n hn ih =>
    intro _
    rw [writeFrom, if_pos hlt]
    simp only [n] at hn ih
    simp only [hn, if_false]
    obtain ⟨calls, hcalls⟩ := ih (by omega)
    exact ⟨calls + 1, .more (.moved (Nat.pos_of_ne_zero hn) (Nat.min_le_right _ _)) hcalls⟩
  | case3 f k put hlt =>
    intro hle
    obtain rfl : put = src.size := by omega
    rw [writeFrom, if_neg hlt]
    exact ⟨0, .none⟩

end SystemFile

/-! ## Reads -/

namespace Reading

variable {f : SystemFile} {off len n : Nat} {got all : Bytes}

/-- One call that reads some of what is missing after `got`; it stops at the end of the file. -/
inductive Call (f : SystemFile) (off len : Nat) (got : Bytes) : Bytes → Prop
  | moved {n : Nat} (hpos : 0 < n) (hle : n ≤ len - got.size) (hend : off + got.size + n ≤ f.bytes.size) :
      Call f off len got (got ++ f.bytes.slice (off + got.size) n)

/-- A number of calls in a row. -/
inductive Calls (f : SystemFile) (off len : Nat) : Nat → Bytes → Bytes → Prop
  | none {got : Bytes} : Calls f off len 0 got got
  | more {n : Nat} {got mid all : Bytes} : Call f off len got mid → Calls f off len n mid all →
      Calls f off len (n + 1) got all

/-- Every call moves something, and none moves more than is missing. -/
theorem Calls.bounds (h : Calls f off len n got all) (hgot : got.size ≤ len) :
    n + got.size ≤ all.size ∧ all.size ≤ len := by
  induction h with
  | none => exact ⟨by omega, hgot⟩
  | more hcall _ ih =>
    obtain ⟨hpos, hle, -⟩ := hcall
    rw [Array.size_append, Bytes.size_slice] at ih
    have hrest := ih (by omega)
    omega

/-- **What a sequence of calls has read is one stretch of the file.** -/
theorem Calls.stretch (h : Calls f off len n got all) (hgot : got = f.bytes.slice off got.size) :
    all = f.bytes.slice off all.size := by
  induction h with
  | none => exact hgot
  | more hcall _ ih =>
    obtain ⟨-, -, -⟩ := hcall
    refine ih ?_
    rw [Array.size_append, Bytes.size_slice]
    exact Bytes.extend_slice hgot _

/-- Calls that have read something have not left the file. -/
theorem Calls.inside (h : Calls f off len n got all) (hgot : got.size = 0 ∨ off + got.size ≤ f.bytes.size) :
    all.size = 0 ∨ off + all.size ≤ f.bytes.size := by
  induction h with
  | none => exact hgot
  | more hcall _ ih =>
    obtain ⟨-, -, hend⟩ := hcall
    refine ih (.inr ?_)
    rw [Array.size_append, Bytes.size_slice]
    omega

end Reading

namespace SystemFile

/-- The loop of a read makes calls until nothing is missing, or until it stands at the end of the file. -/
theorem readFrom_calls {f : SystemFile} {moves : Transfers} (hmoves : ∀ k, 0 < moves k) {off len : Nat} :
    ∀ (k : Nat) (got : Bytes), got.size ≤ len → ∃ n all, Reading.Calls f off len n got all ∧
      ((all.size = len ∧ f.readFrom moves off len k got = .ok all) ∨
        (all.size < len ∧ f.bytes.size ≤ off + all.size ∧
          f.readFrom moves off len k got = .error reachedEnd)) := by
  intro k got
  induction k, got using readFrom.induct f moves off len with
  | case1 k got hlt n hn =>
    intro _
    have hpos := hmoves k
    rw [readFrom, if_pos hlt]
    simp only [n] at hn
    simp only [hn, if_true]
    exact ⟨0, got, .none, .inr ⟨hlt, by omega, trivial⟩⟩
  | case2 k got hlt n hn ih =>
    intro _
    rw [readFrom, if_pos hlt]
    simp only [n] at hn ih
    simp only [hn, if_false]
    rw [Array.size_append, Bytes.size_slice] at ih
    have hmissing : min (moves k) (min (len - got.size) (f.bytes.size - (off + got.size))) ≤
        len - got.size := Nat.le_trans (Nat.min_le_right _ _) (Nat.min_le_left _ _)
    have hinside : min (moves k) (min (len - got.size) (f.bytes.size - (off + got.size))) ≤
        f.bytes.size - (off + got.size) := Nat.le_trans (Nat.min_le_right _ _) (Nat.min_le_right _ _)
    have hcall : Reading.Call f off len got _ :=
      .moved (Nat.pos_of_ne_zero hn) hmissing (by clear ih; omega)
    obtain ⟨calls, all, hcalls, hend⟩ := ih (by clear ih; omega)
    exact ⟨calls + 1, all, .more hcall hcalls, hend⟩
  | case3 k got hlt =>
    intro hle
    rw [readFrom, if_neg hlt]
    exact ⟨0, got, .none, .inl ⟨by omega, rfl⟩⟩

/-! ## Both loops -/

/-- What a write does, whatever its calls choose to move. -/
structure WritesWhole (f : SystemFile) (off : Nat) (src : Bytes) : Prop where
  /-- There are no more calls than bytes. -/
  ends : ∀ n w, Writing.Calls off src n ⟨f, 0⟩ w → n ≤ src.size
  /-- As long as something remains another call can be made. -/
  goes_on : ∀ w : Writing, w.put < src.size → ∃ v, w.Call off src v
  /-- When nothing remains the file is overlaid by the whole source. -/
  leaves : ∀ n w, Writing.Calls off src n ⟨f, 0⟩ w → w.put = src.size →
    w.file.bytes = f.bytes.overlay off src
  /-- The loop makes such calls until nothing remains. -/
  loops : ∀ moves : Transfers, (∀ k, 0 < moves k) →
    (f.writeAt moves off src).2 = .ok () ∧
      ∃ n, Writing.Calls off src n ⟨f, 0⟩ ⟨(f.writeAt moves off src).1, src.size⟩
  /-- A gap between the old end and the source is filled with zeros. -/
  gap : ∀ i, f.bytes.size ≤ i → i < off → (f.bytes.overlay off src)[i]? = some 0

/-- What a read gives, whatever its calls choose to move. -/
structure ReadsRange (f : SystemFile) (off len : Nat) : Prop where
  /-- There are no more calls that move something than bytes. -/
  ends : ∀ n got, Reading.Calls f off len n #[] got → n ≤ len
  /-- As long as something is missing another call moves something, except at the end of the file. -/
  goes_on : ∀ got : Bytes, got.size < len → off + got.size < f.bytes.size → ∃ more, Reading.Call f off len got more
  /-- When nothing is missing the bytes are those of the range, which lies inside the file. -/
  leaves : ∀ n got, Reading.Calls f off len n #[] got → got.size = len →
    got = f.bytes.slice off len ∧ off + len ≤ f.bytes.size
  /-- The loop makes such calls until nothing is missing or it stands at the end of the file. -/
  loops : ∀ moves : Transfers, (∀ k, 0 < moves k) → ∃ n got, Reading.Calls f off len n #[] got ∧
    ((got.size = len ∧ f.readAt moves off len = .ok got) ∨
      (got.size < len ∧ f.bytes.size ≤ off + got.size ∧ f.readAt moves off len = .error reachedEnd))
  inside : off + len ≤ f.bytes.size → ∀ moves : Transfers, (∀ k, 0 < moves k) →
    f.readAt moves off len = .ok (f.bytes.extract off (off + len))
  past : f.bytes.size < off + len → ∀ moves : Transfers, (∀ k, 0 < moves k) →
    f.readAt moves off len = .error reachedEnd

variable {f : SystemFile} {off len : Nat} {src : Bytes}

theorem writesWhole (hsrc : 0 < src.size) (hlim : off + src.size < systemOffsetLimit) :
    f.WritesWhole off src where
  ends n w h := by
    have hbounds := h.bounds (Nat.zero_le _)
    dsimp only at hbounds
    omega
  goes_on w hw := ⟨_, .moved (n := src.size - w.put) (by omega) (Nat.le_refl _)⟩
  leaves n w h hw := by
    rcases h.stretch (Nat.zero_le _) with rfl | hbytes
    · exact absurd hw (by dsimp only; omega)
    · rwa [hw, Nat.add_zero, Nat.sub_zero, Bytes.slice_zero_size] at hbytes
  loops moves hmoves := by
    refine ⟨by rw [writeAt_eq hmoves f hlim], ?_⟩
    rw [writeAt, if_neg (by omega)]
    exact writeFrom_calls hmoves f 0 0 (Nat.zero_le _)
  gap i hsize hoff := by
    have hbyte := f.bytes.byte_overlay off src i
    have hin : i < (f.bytes.overlay off src).size := by
      rw [Bytes.size_overlay]
      omega
    rw [if_neg (by omega), Bytes.byte_of_size_le hsize, Bytes.byte, Array.getElem?_eq_getElem hin] at hbyte
    rw [Array.getElem?_eq_getElem hin]
    exact congrArg some hbyte

theorem readsRange (hlen : 0 < len) (hlim : off + len < systemOffsetLimit) : f.ReadsRange off len where
  ends n got h := by
    have hbounds := h.bounds (Nat.zero_le _)
    omega
  goes_on got hgot hin := ⟨_, .moved (n := 1) (by omega) (by omega) (by omega)⟩
  leaves n got h hgot := by
    have hempty : (#[] : Bytes) = f.bytes.slice off (#[] : Bytes).size :=
      (Array.eq_empty_of_size_eq_zero (by simp)).symm
    have hin := h.inside (.inl rfl)
    refine ⟨hgot ▸ h.stretch hempty, ?_⟩
    omega
  loops moves hmoves := by
    rw [readAt, if_neg (by omega)]
    exact readFrom_calls hmoves 0 #[] (Nat.zero_le _)
  inside hin moves hmoves := by
    have hslice : f.bytes.slice off len = f.bytes.extract off (off + len) := by
      refine Bytes.ext_byte ?_ fun i => ?_
      · rw [Bytes.size_slice, Array.size_extract]
        omega
      · rw [Bytes.byte_slice, Bytes.byte_extract]
        simp only [Nat.add_lt_add_iff_left]
    rw [readAt_eq hmoves f hlim, if_pos (.inr hin), hslice]
  past hpast moves hmoves := by rw [readAt_eq hmoves f hlim, if_neg (by omega)]

/-- **How much the operating system moves at a time does not show.** For every file, every offset and every
buffer that is not empty, whose range ends below the offsets that the operating system does not take: a
write of the buffer and a read into it end, and give what they would give if every call moved all that
remains. -/
theorem short_transfers_hidden {buf : Bytes} (hbuf : 0 < buf.size)
    (hlim : off + buf.size < systemOffsetLimit) : f.WritesWhole off buf ∧ f.ReadsRange off buf.size :=
  ⟨writesWhole hbuf hlim, readsRange hbuf hlim⟩

/-- A buffer behind a gap of two bytes. -/
theorem short_transfers_hidden_gap : 0 < (#[7, 8] : Bytes).size ∧ 5 + (#[7, 8] : Bytes).size < systemOffsetLimit ∧
    WritesWhole ⟨#[1, 2, 3]⟩ 5 #[7, 8] ∧ ReadsRange ⟨#[1, 2, 3]⟩ 5 (#[7, 8] : Bytes).size :=
  ⟨by decide, by decide, short_transfers_hidden (by decide) (by decide)⟩

end SystemFile

end PageEngine
