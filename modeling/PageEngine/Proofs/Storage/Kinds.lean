import PageEngine.Proofs.Storage.Files

/-!
# `Proofs/Storage/Kinds.lean` — a file in memory beside a file of the operating system

The two kinds of file serve the same calls. The one in memory looks at the bounds and copies; the one of
the operating system makes calls until nothing remains, and each of them moves as much as it likes. They
are compared call by call along a run of any length (`FilesAgree`).

> **they agree on every call of a run exactly if none of its calls is an empty transfer past the end of
> the file**.

An empty transfer makes no call of the operating system, wherever it is. In memory it is checked like any
other: an empty read past the end fails, and an empty write past the end extends the file.
-/

set_option autoImplicit false

namespace PageEngine

/-! ## Calls -/

/-- A call on a file. -/
inductive FileCall where
  | write (off : Nat) (src : Bytes)
  | read (off len : Nat)
  | len
  | isEmpty

/-- What a call on a file gives. -/
inductive FileAnswer where
  | done
  | bytes (b : Bytes)
  | len (n : Nat)
  | flag (b : Bool)
deriving DecidableEq

namespace FileCall

/-- Where a call moves bytes, and how many. -/
def range : FileCall → Option (Nat × Nat)
  | .write off src => some (off, src.size)
  | .read off n => some (off, n)
  | .len => none
  | .isEmpty => none

/-- The range of the call ends below the offsets that the operating system does not take. -/
def InRange (c : FileCall) : Prop := ∀ off n, c.range = some (off, n) → off + n < systemOffsetLimit

/-- The call moves no byte, at an offset past the end of a file of this size. -/
def Overreaches (c : FileCall) (size : Nat) : Prop := ∃ off, c.range = some (off, 0) ∧ size < off

end FileCall

def MemoryFile.serve (f : MemoryFile) : FileCall → MemoryFile × Except Error FileAnswer
  | .write off src => ((f.writeAt off src).1, (f.writeAt off src).2.map fun _ => .done)
  | .read off len => (f, (f.readAt off len).map .bytes)
  | .len => (f, (FaultyFile.len { file := .memory f }).map .len)
  | .isEmpty => (f, (FaultyFile.isEmpty { file := .memory f }).map .flag)

def SystemFile.serve (f : SystemFile) (moves : Transfers) : FileCall → SystemFile × Except Error FileAnswer
  | .write off src => ((f.writeAt moves off src).1, (f.writeAt moves off src).2.map fun _ => .done)
  | .read off len => (f, (f.readAt moves off len).map .bytes)
  | .len => (f, (FaultyFile.len { file := .system f }).map .len)
  | .isEmpty => (f, (FaultyFile.isEmpty { file := .system f }).map .flag)

/-- The failure of a read that does not end inside the file, in the words of either kind of file. -/
def Error.IsEndOfFile (e : Error) : Prop := e = MemoryFile.pastEnd ∨ e = SystemFile.reachedEnd

/-- Two calls give the same, or both come to the end of the file. -/
def SameOutcome : Except Error FileAnswer → Except Error FileAnswer → Prop
  | .ok a, .ok b => a = b
  | .error e, .error e' => e.IsEndOfFile ∧ e'.IsEndOfFile
  | _, _ => False

/-- The files give the same outcome for every call of a run and have the same bytes after it. Each call
comes with the transfers that the operating system makes for it. -/
def FilesAgree : MemoryFile → SystemFile → List (FileCall × Transfers) → Prop
  | _, _, [] => True
  | f, g, (c, moves) :: cs =>
    (SameOutcome (f.serve c).2 (g.serve moves c).2 ∧ (g.serve moves c).1.bytes = (f.serve c).1.bytes) ∧
      FilesAgree (f.serve c).1 (g.serve moves c).1 cs

/-- No call of a run is an empty transfer past the end of the file. -/
def StaysInside : MemoryFile → List FileCall → Prop
  | _, [] => True
  | f, c :: cs => ¬c.Overreaches f.bytes.size ∧ StaysInside (f.serve c).1 cs

/-! ## One call -/

namespace SystemFile

/-- **A write under any schedule that moves something overlays the file with its source**, and an empty one
leaves the file alone. -/
theorem writeAt_eq {moves : Transfers} (hmoves : ∀ k, 0 < moves k) (f : SystemFile) {off : Nat} {src : Bytes}
    (hlim : off + src.size < systemOffsetLimit) :
    f.writeAt moves off src = (if src.size = 0 then f else ⟨f.bytes.overlay off src⟩, .ok ()) := by
  rw [writeAt, if_neg (by omega)]
  by_cases hsize : src.size = 0
  · rw [writeFrom, if_neg (by omega), if_pos hsize]
  · rw [writeFrom_eq hmoves f 0 0 (by omega), if_neg hsize, Nat.add_zero, Nat.sub_zero, Bytes.slice_zero_size]

/-- **A read under any schedule that moves something gives the bytes of its range if the range lies inside
the file, and comes to the end of the file otherwise**; an empty one gives nothing. -/
theorem readAt_eq {moves : Transfers} (hmoves : ∀ k, 0 < moves k) (f : SystemFile) {off len : Nat}
    (hlim : off + len < systemOffsetLimit) :
    f.readAt moves off len =
      if len = 0 ∨ off + len ≤ f.bytes.size then .ok (f.bytes.slice off len) else .error reachedEnd := by
  have hempty : (#[] : Bytes) = f.bytes.slice off 0 := (Array.eq_empty_of_size_eq_zero (by simp)).symm
  rw [readAt, if_neg (by omega)]
  by_cases hlen : len = 0
  · subst hlen
    rw [readFrom, if_neg (Nat.not_lt_zero _), if_pos (.inl rfl), ← hempty]
  · by_cases hin : off + len ≤ f.bytes.size
    · rw [if_pos (.inr hin), readFrom_inside hmoves hin 0 #[] hempty (Nat.zero_le _)]
    · rw [if_neg (by omega), readFrom_past (by omega) (by omega) 0 #[] (.inl rfl)]

end SystemFile

namespace Bytes

/-- An empty source written inside a byte string or at its end changes nothing. -/
theorem overlay_of_empty {b src : Bytes} {off : Nat} (hsrc : src.size = 0) (hoff : off ≤ b.size) :
    b.overlay off src = b := by
  apply ext_byte
  · rw [size_overlay, hsrc]
    omega
  · intro i
    rw [byte_overlay, hsrc, if_neg (by omega)]

end Bytes

section OneCall

variable {f : MemoryFile} {g : SystemFile} {moves : Transfers} {c : FileCall}

theorem systemOffsetLimit_le : systemOffsetLimit ≤ offsetLimit := by decide

/-- **Two files with the same bytes agree on a call exactly if it is no empty transfer past their end.** -/
theorem serve_agrees_iff (hbytes : g.bytes = f.bytes) (hrange : c.InRange) (hmoves : ∀ k, 0 < moves k) :
    (SameOutcome (f.serve c).2 (g.serve moves c).2 ∧ (g.serve moves c).1.bytes = (f.serve c).1.bytes) ↔
      ¬c.Overreaches f.bytes.size := by
  have hlimit := systemOffsetLimit_le
  cases c with
  | write off src =>
    have hlim : off + src.size < systemOffsetLimit := hrange off src.size rfl
    have hover : FileCall.Overreaches (.write off src) f.bytes.size ↔ src.size = 0 ∧ f.bytes.size < off := by
      simp [FileCall.Overreaches, FileCall.range]
    simp only [MemoryFile.serve, MemoryFile.writeAt, if_neg (show ¬offsetLimit ≤ off + src.size by omega),
      SystemFile.serve, SystemFile.writeAt_eq hmoves g hlim, Except.map, SameOutcome, true_and, hover]
    by_cases hsrc : src.size = 0
    · rw [if_pos hsrc, hbytes]
      simp only [hsrc, true_and, Nat.not_lt]
      constructor
      · intro heq
        have hsize := congrArg Array.size heq
        rw [Bytes.size_overlay, hsrc, Nat.add_zero] at hsize
        exact hsize ▸ Nat.le_max_right f.bytes.size off
      · exact fun hoff => (Bytes.overlay_of_empty hsrc hoff).symm
    · rw [if_neg hsrc, hbytes]
      simp only [hsrc, false_and, not_false_eq_true]
  | read off len =>
    have hlim : off + len < systemOffsetLimit := hrange off len rfl
    have hover : FileCall.Overreaches (.read off len) f.bytes.size ↔ len = 0 ∧ f.bytes.size < off := by
      simp [FileCall.Overreaches, FileCall.range]
    simp only [MemoryFile.serve, MemoryFile.readAt, if_neg (show ¬offsetLimit ≤ off + len by omega),
      SystemFile.serve, SystemFile.readAt_eq hmoves g hlim, hbytes, and_true, hover]
    by_cases hin : off + len ≤ f.bytes.size
    · rw [if_neg (Nat.not_lt.2 hin), if_pos (.inr hin)]
      simp only [Except.map, SameOutcome, true_iff]
      omega
    · rw [if_pos (Nat.not_le.1 hin)]
      by_cases hlen : len = 0
      · rw [if_pos (.inl hlen)]
        simp only [Except.map, SameOutcome, false_iff]
        omega
      · rw [if_neg (by omega)]
        simp only [Except.map, SameOutcome, Error.IsEndOfFile, true_or, or_true, and_self, true_iff]
        omega
  | len =>
    simp [FileCall.Overreaches, FileCall.range, MemoryFile.serve, SystemFile.serve, FaultyFile.len, File.len,
      File.bytes, hbytes, Except.map, SameOutcome]
  | isEmpty =>
    simp [FileCall.Overreaches, FileCall.range, MemoryFile.serve, SystemFile.serve, FaultyFile.isEmpty,
      FaultyFile.len, File.len, File.bytes, hbytes, Except.map, SameOutcome]

end OneCall

/-! ## Runs -/

/-- Two files with the same bytes agree along a run exactly if it has no empty transfer past the end. -/
theorem filesAgree_iff {cs : List (FileCall × Transfers)} :
    ∀ {f : MemoryFile} {g : SystemFile}, g.bytes = f.bytes → (∀ c ∈ cs, c.1.InRange) →
      (∀ c ∈ cs, ∀ k, 0 < c.2 k) → (FilesAgree f g cs ↔ StaysInside f (cs.map Prod.fst)) := by
  induction cs with
  | nil => exact fun _ _ _ => Iff.rfl
  | cons call cs ih =>
    intro f g hbytes hrange hmoves
    obtain ⟨c, moves⟩ := call
    obtain ⟨hrange₁, hranges⟩ := List.forall_mem_cons.1 hrange
    obtain ⟨hmoves₁, hmovess⟩ := List.forall_mem_cons.1 hmoves
    have hone := serve_agrees_iff hbytes hrange₁ hmoves₁
    rw [FilesAgree, List.map_cons, StaysInside, hone]
    exact and_congr_right fun hin => ih (hone.2 hin).2 hranges hmovess

/-- **Started on an empty file, the two kinds of file agree on every call of a run exactly if none of its
calls is an empty transfer past the end of the file**, whatever the operating system moves at a time. -/
theorem kinds_agree_iff {cs : List (FileCall × Transfers)} (hrange : ∀ c ∈ cs, c.1.InRange)
    (hmoves : ∀ c ∈ cs, ∀ k, 0 < c.2 k) :
    FilesAgree {} {} cs ↔ StaysInside {} (cs.map Prod.fst) :=
  filesAgree_iff rfl hrange hmoves

/-- A sparse write, a read across its gap, an empty read at the end of the file and a read past it, one byte
at a time. -/
def sparseRun : List (FileCall × Transfers) :=
  [(.write 2 #[7, 8], fun _ => 1), (.read 1 3, fun _ => 1), (.read 4 0, fun _ => 1), (.read 3 2, fun _ => 1)]

theorem kinds_agree_sparse :
    (∀ c ∈ sparseRun, c.1.InRange) ∧ (∀ c ∈ sparseRun, ∀ k, 0 < c.2 k) ∧ FilesAgree {} {} sparseRun := by
  have hrange : ∀ c ∈ sparseRun, c.1.InRange := by
    simp [sparseRun, FileCall.InRange, FileCall.range, systemOffsetLimit]
  have hmoves : ∀ c ∈ sparseRun, ∀ k, 0 < c.2 k := by simp [sparseRun]
  refine ⟨hrange, hmoves, (kinds_agree_iff hrange hmoves).2 ?_⟩
  simp [sparseRun, StaysInside, FileCall.Overreaches, FileCall.range, MemoryFile.serve, MemoryFile.writeAt,
    offsetLimit, UInt64.size]

/-- **An empty write past the end extends a file in memory and leaves one of the operating system alone**: the
two differ after it. -/
theorem empty_write_extends :
    ¬∀ cs : List (FileCall × Transfers), (∀ c ∈ cs, c.1.InRange) → (∀ c ∈ cs, ∀ k, 0 < c.2 k) →
      FilesAgree {} {} cs := by
  intro hall
  have hrange : ∀ c ∈ [(FileCall.write 5 #[], File.wholeTransfers)], c.1.InRange := by
    simp [FileCall.InRange, FileCall.range, systemOffsetLimit]
  have hmoves : ∀ c ∈ [(FileCall.write 5 #[], File.wholeTransfers)], ∀ k, 0 < c.2 k := by
    simpa using File.moves_whole
  have hinside := (filesAgree_iff rfl hrange hmoves).1 (hall _ hrange hmoves)
  exact hinside.1 ⟨5, rfl, by decide⟩

end PageEngine
