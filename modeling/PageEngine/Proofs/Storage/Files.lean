import Mathlib.Tactic.Common
import PageEngine.File.Disk

/-!
# `Proofs/Storage/Files.lean` — files as byte strings

A file is in memory or of the operating system, and it can be told to fail. Where it is not
(`Disk.Faultless`), only its bytes matter: it is a byte string under a name.

> **a write overlays the file of its name with its source**, and a read inside a file gives the bytes of
> its range.

Which kind of file it is does not show, nor how the operating system splits a transfer.
-/

set_option autoImplicit false

namespace PageEngine

open Std

/-! ## Slices and overlays -/

namespace Bytes

theorem slice_append (b : Bytes) (off m n : Nat) :
    b.slice off m ++ b.slice (off + m) n = b.slice off (m + n) := by
  apply ext_byte
  · simp
  · intro i
    rw [byte_append, byte_slice, byte_slice, byte_slice, size_slice]
    by_cases h₁ : i < m
    · rw [if_pos h₁, if_pos h₁, if_pos (by omega)]
    · rw [if_neg h₁]
      by_cases h₂ : i < m + n
      · rw [if_pos (by omega), if_pos h₂]
        congr 1
        omega
      · rw [if_neg (by omega), if_neg h₂]

theorem extend_slice {b got : Bytes} {off : Nat} (h : got = b.slice off got.size) (n : Nat) :
    got ++ b.slice (off + got.size) n = b.slice off (got.size + n) := by
  have happ := slice_append b off got.size n
  rwa [← h] at happ

/-- Two stretches written one after the other are written as one. -/
theorem overlay_append (b : Bytes) (off : Nat) (x y : Bytes) :
    (b.overlay off x).overlay (off + x.size) y = b.overlay off (x ++ y) := by
  apply ext_byte
  · simp only [size_overlay, Array.size_append]
    omega
  · intro i
    simp only [byte_overlay, byte_append, Array.size_append]
    by_cases hy : off + x.size ≤ i ∧ i < off + x.size + y.size
    · rw [if_pos hy, if_pos (by omega), if_neg (by omega), Nat.sub_sub]
    · rw [if_neg hy]
      by_cases hx : off ≤ i ∧ i < off + x.size
      · rw [if_pos hx, if_pos (by omega), if_pos (by omega)]
      · rw [if_neg hx, if_neg (by omega)]

theorem slice_zero_size (b : Bytes) : b.slice 0 b.size = b := by
  apply ext_byte
  · simp
  · intro i
    rw [byte_slice, Nat.zero_add]
    split
    · rfl
    · rw [byte_of_size_le (by omega)]

end Bytes

namespace PageData

theorem ext_bytes {a b : PageData} (h : a.bytes = b.bytes) : a = b := by
  cases a
  cases b
  simp_all

/-- A page that was just written over a byte string is read back. -/
theorem ofBytes_overlay_self (b : Bytes) (off : Nat) (d : PageData) :
    ofBytes (b.overlay off d.bytes) off = d := by
  apply ext_byte
  intro i hi
  rw [byte_ofBytes, if_pos hi, Bytes.byte_overlay, d.size_eq, if_pos (by omega)]
  congr 1
  omega

/-- A page that does not meet the written range is as before. -/
theorem ofBytes_overlay_other (b : Bytes) {off off' : Nat} (d : PageData)
    (h : off' + pageSize ≤ off ∨ off + pageSize ≤ off') :
    ofBytes (b.overlay off d.bytes) off' = ofBytes b off' := by
  apply ext_byte
  intro i hi
  rw [byte_ofBytes, byte_ofBytes, if_pos hi, if_pos hi, Bytes.byte_overlay, d.size_eq,
    if_neg (by omega)]

end PageData

/-! ## One file -/

namespace SystemFile

/-- A read under any schedule that succeeds has collected the bytes of its range. -/
theorem readFrom_ok {f : SystemFile} {moves : Transfers} {off len : Nat} {b : Bytes} :
    ∀ (k : Nat) (got : Bytes), got = f.bytes.slice off got.size → got.size ≤ len →
      f.readFrom moves off len k got = .ok b → b = f.bytes.slice off len := by
  intro k got
  induction k, got using readFrom.induct f moves off len with
  | case1 k got hlt n hn =>
    intro _ _ h
    rw [readFrom, if_pos hlt] at h
    simp only [n] at hn
    simp [hn] at h
  | case2 k got hlt n hn ih =>
    intro hgot hle h
    rw [readFrom, if_pos hlt] at h
    simp only [n] at hn ih
    simp only [hn, if_false] at h
    refine ih ?_ ?_ h
    · rw [Array.size_append, Bytes.size_slice]
      exact Bytes.extend_slice hgot _
    · rw [Array.size_append, Bytes.size_slice]
      omega
  | case3 k got hlt =>
    intro hgot hle h
    rw [readFrom, if_neg hlt, Except.ok.injEq] at h
    have hsize : got.size = len := by omega
    rw [← h, hgot, hsize]

/-- A read inside the file succeeds if every call moves something. -/
theorem readFrom_inside {f : SystemFile} {moves : Transfers} (hmoves : ∀ k, 0 < moves k) {off len : Nat}
    (hin : off + len ≤ f.bytes.size) :
    ∀ (k : Nat) (got : Bytes), got = f.bytes.slice off got.size → got.size ≤ len →
      f.readFrom moves off len k got = .ok (f.bytes.slice off len) := by
  intro k got
  induction k, got using readFrom.induct f moves off len with
  | case1 k got hlt n hn =>
    intro _ _
    have hpos := hmoves k
    simp only [n] at hn
    omega
  | case2 k got hlt n hn ih =>
    intro hgot hle
    rw [readFrom, if_pos hlt]
    simp only [n] at hn ih
    simp only [hn, if_false]
    refine ih ?_ ?_
    · rw [Array.size_append, Bytes.size_slice]
      exact Bytes.extend_slice hgot _
    · rw [Array.size_append, Bytes.size_slice]
      omega
  | case3 k got hlt =>
    intro hgot hle
    have hsize : got.size = len := by omega
    rw [readFrom, if_neg hlt, hgot, hsize]

/-- A read that leaves the file comes to its end, whatever its calls move. -/
theorem readFrom_past {f : SystemFile} {moves : Transfers} {off len : Nat}
    (hpast : f.bytes.size < off + len) (hpos : 0 < len) :
    ∀ (k : Nat) (got : Bytes), got.size = 0 ∨ off + got.size ≤ f.bytes.size →
      f.readFrom moves off len k got = .error reachedEnd := by
  intro k got
  induction k, got using readFrom.induct f moves off len with
  | case1 k got hlt n hn =>
    intro _
    rw [readFrom, if_pos hlt]
    simp only [n] at hn
    simp only [hn, if_true]
  | case2 k got hlt n hn ih =>
    intro _
    rw [readFrom, if_pos hlt]
    simp only [n] at hn ih
    simp only [hn, if_false]
    refine ih (.inr ?_)
    rw [Array.size_append, Bytes.size_slice]
    omega
  | case3 k got hlt =>
    intro hgot
    omega

/-- **A write overlays what is left of its source**, if there is any and every call moves something. -/
theorem writeFrom_eq {moves : Transfers} (hmoves : ∀ k, 0 < moves k) {off : Nat} {src : Bytes} :
    ∀ (f : SystemFile) (k put : Nat), put < src.size →
      f.writeFrom moves off src k put =
        (⟨f.bytes.overlay (off + put) (src.slice put (src.size - put))⟩, .ok ()) := by
  intro f k put
  induction f, k, put using writeFrom.induct moves off src with
  | case1 f k put hlt n hn =>
    intro _
    have hpos := hmoves k
    simp only [n] at hn
    omega
  | case2 f k put hlt n hn ih =>
    intro _
    rw [writeFrom, if_pos hlt]
    simp only [n] at hn ih
    simp only [hn, if_false]
    have hle : min (moves k) (src.size - put) ≤ src.size - put := Nat.min_le_right _ _
    generalize min (moves k) (src.size - put) = m at hn ih hle ⊢
    by_cases hmore : put + m < src.size
    · -- What this call has moved and what the rest moves are one stretch of the source.
      have hlen : m + (src.size - (put + m)) = src.size - put := by omega
      have hrest := f.bytes.overlay_append (off + put) (src.slice put m)
        (src.slice (put + m) (src.size - (put + m)))
      rw [Bytes.size_slice, Bytes.slice_append, hlen, Nat.add_assoc] at hrest
      rw [ih hmore, hrest]
    · have hall : m = src.size - put := by omega
      rw [writeFrom, if_neg hmore, hall]
  | case3 f k put hlt =>
    intro h
    exact absurd h hlt

end SystemFile

namespace File

theorem moves_whole (k : Nat) : 0 < wholeTransfers k := (by decide : 0 < systemOffsetLimit)

theorem readAt_ok {f : File} {off len : Nat} {b : Bytes} (h : f.readAt off len = .ok b) :
    b = f.bytes.slice off len := by
  cases f with
  | memory f =>
    simp only [readAt, MemoryFile.readAt] at h
    split at h
    · cases h
    split at h
    · cases h
    exact (Except.ok.inj h).symm
  | system f =>
    simp only [readAt, SystemFile.readAt] at h
    split at h
    · cases h
    exact SystemFile.readFrom_ok 0 #[] (Array.eq_empty_of_size_eq_zero (by simp)).symm
      (Nat.zero_le _) h

/-- A read that succeeds stays inside the file. -/
theorem le_of_readAt {f : File} {off len : Nat} {b : Bytes} (h : f.readAt off len = .ok b) (hpos : 0 < len) :
    off + len ≤ f.len := by
  by_contra hpast
  rw [Nat.not_le] at hpast
  cases f with
  | memory f =>
    simp only [readAt, MemoryFile.readAt] at h
    split at h
    · cases h
    · split at h
      · cases h
      · rename_i hin
        exact hin hpast
  | system f =>
    simp only [readAt, SystemFile.readAt] at h
    split at h
    · cases h
    · rw [SystemFile.readFrom_past hpast hpos 0 #[] (.inl rfl)] at h
      cases h

theorem readAt_inside {f : File} {off len : Nat} (hin : off + len ≤ f.len)
    (hlim : off + len < systemOffsetLimit) : f.readAt off len = .ok (f.bytes.slice off len) := by
  have hlim' : off + len < offsetLimit := by simp only [offsetLimit, UInt64.size, systemOffsetLimit] at *; omega
  cases f with
  | memory f =>
    simp only [File.len, File.bytes] at hin
    rw [readAt, MemoryFile.readAt, if_neg (by omega), if_neg (by omega)]
    rfl
  | system f =>
    rw [readAt, SystemFile.readAt, if_neg (by omega)]
    exact SystemFile.readFrom_inside moves_whole hin 0 #[]
      (Array.eq_empty_of_size_eq_zero (by simp)).symm (Nat.zero_le _)

theorem writeAt_inside {f : File} {off : Nat} {src : Bytes} (hpos : 0 < src.size)
    (hlim : off + src.size < systemOffsetLimit) :
    (f.writeAt off src).2 = .ok () ∧ (f.writeAt off src).1.bytes = f.bytes.overlay off src := by
  have hlim' : off + src.size < offsetLimit := by
    simp only [offsetLimit, UInt64.size, systemOffsetLimit] at *
    omega
  cases f with
  | memory f =>
    simp only [writeAt, MemoryFile.writeAt, if_neg (Nat.not_le.2 hlim')]
    exact ⟨trivial, rfl⟩
  | system f =>
    have hneg : ¬(0 < src.size ∧ systemOffsetLimit ≤ off + src.size) := by omega
    simp only [writeAt, SystemFile.writeAt, if_neg hneg, SystemFile.writeFrom_eq moves_whole f 0 0 hpos,
      Nat.add_zero, Nat.sub_zero, Bytes.slice_zero_size]
    exact ⟨trivial, rfl⟩

/-- No write makes a file shorter, also one that fails. -/
theorem size_writeAt (f : File) (off : Nat) (src : Bytes) :
    f.bytes.size ≤ (f.writeAt off src).1.bytes.size := by
  cases f with
  | memory f =>
    simp only [writeAt, MemoryFile.writeAt]
    split
    · exact Nat.le_refl _
    · simp only [bytes, Bytes.size_overlay]
      exact Nat.le_max_left _ _
  | system f =>
    simp only [writeAt, SystemFile.writeAt]
    split
    · exact Nat.le_refl _
    · by_cases hpos : 0 < src.size
      · rw [SystemFile.writeFrom_eq moves_whole f 0 0 hpos]
        simp only [bytes, Bytes.size_overlay]
        exact Nat.le_max_left _ _
      · refine Nat.le_of_eq ?_
        rw [SystemFile.writeFrom, if_neg hpos]

theorem bytes_sync (f : File) : f.sync.bytes = f.bytes := by
  cases f <;> rfl

end File

/-! ## A disk that may fail -/

namespace Disk

def bytes (d : Disk) (name : String) : Bytes := (d.file name).file.bytes

/-- If a length is reported through the reference, it is the real one. -/
def Candid (d : Disk) (r : FileRef) : Prop := (d.view r).faults.fakeLen = none

/-- Through the reference reads fail, or the length is not reported. -/
def Blind (d : Disk) (r : FileRef) : Prop := (d.view r).faults.read = true ∨ (d.view r).faults.len = true

/-- Through the reference no write succeeds any more. -/
def Frozen (d : Disk) (r : FileRef) : Prop := (d.view r).faults.writesLeft = some 0

theorem file_put (d : Disk) (name : String) (f : FaultyFile) (other : String) :
    (d.put name f).file other = if other = name then f else d.file other := by
  by_cases h : other = name
  · subst h
    simp [file, put]
  · simp [file, put, ExtTreeMap.getElem?_insert, h, Ne.symm h]

theorem bytes_put (d : Disk) (name : String) (f : FaultyFile) (other : String) :
    (d.put name f).bytes other = if other = name then f.file.bytes else d.bytes other := by
  rw [bytes, file_put]
  split <;> rfl

theorem file_view (d : Disk) (r : FileRef) : (d.view r).file = (d.file r.name).file := by
  unfold view
  split <;> rfl

theorem bytes_store (d : Disk) (r : FileRef) (f : FaultyFile) (name : String) :
    (d.store r f).bytes name = if name = r.name then f.file.bytes else d.bytes name := by
  unfold store
  split
  · exact d.bytes_put r.name _ name
  · exact d.bytes_put r.name f name

theorem file_store_other (d : Disk) {r : FileRef} (f : FaultyFile) {name : String} (h : name ≠ r.name) :
    (d.store r f).file name = d.file name := by
  unfold store
  split <;> rw [file_put, if_neg h]

theorem candid_store {d : Disk} {r : FileRef} {f : FaultyFile} (h : f.faults.fakeLen = none) :
    (d.store r f).Candid r := by
  unfold Candid view store
  cases r.direct with
  | true => rfl
  | false => simpa [file_put] using h

/-- What is stored brings no faults. -/
theorem blind_of_store {d : Disk} {r : FileRef} {f : FaultyFile} (hf : f.faults.read = (d.view r).faults.read)
    (hf' : f.faults.len = (d.view r).faults.len) (h : (d.store r f).Blind r) : d.Blind r := by
  cases hr : r.direct with
  | true => simp [Blind, view, hr] at h
  | false =>
    simp only [Blind, view, hr, Bool.false_eq_true, if_false] at hf hf' ⊢
    simpa [Blind, view, store, hr, file_put, hf, hf'] using h

theorem len_of_candid {d : Disk} {r : FileRef} (h : d.Candid r) :
    (d.Blind r ∧ d.len r = .error diskUnavailable) ∨ d.len r = .ok (d.bytes r.name).size := by
  rw [len, FaultyFile.len, h, Option.getD_none, file_view]
  split
  · rename_i hlen
    exact .inl ⟨.inr hlen, rfl⟩
  · exact .inr rfl

theorem readAt_cases (d : Disk) (r : FileRef) (off len : Nat) :
    (d.Blind r ∧ d.readAt r off len = .error diskUnavailable) ∨
      d.readAt r off len = (d.file r.name).file.readAt off len := by
  rw [readAt, FaultyFile.readAt, file_view]
  split
  · rename_i hread
    exact .inl ⟨.inl hread, rfl⟩
  · exact .inr rfl

theorem readAt_ok {d : Disk} {r : FileRef} {off len : Nat} {b : Bytes} (h : d.readAt r off len = .ok b)
    (hpos : 0 < len) :
    b = (d.bytes r.name).slice off len ∧ off + len ≤ (d.bytes r.name).size := by
  rcases d.readAt_cases r off len with ⟨-, hcase⟩ | hcase
  · rw [hcase] at h
    cases h
  · rw [hcase] at h
    exact ⟨File.readAt_ok h, File.le_of_readAt h hpos⟩

/-- No write makes a file shorter. -/
theorem size_writeAt (d : Disk) (r : FileRef) (off : Nat) (b : Bytes) (name : String) :
    (d.bytes name).size ≤ ((d.writeAt r off b).1.bytes name).size := by
  have hfile : (d.bytes r.name).size ≤ ((d.view r).writeAt off b).1.file.bytes.size := by
    rw [bytes, ← file_view, FaultyFile.writeAt]
    split
    · exact Nat.le_refl _
    · exact File.size_writeAt _ off b
  rw [writeAt, bytes_store]
  split
  · rename_i hname
    rw [hname]
    exact hfile
  · exact Nat.le_refl _

theorem bytes_sync (d : Disk) (r : FileRef) (name : String) : (d.sync r).1.bytes name = d.bytes name := by
  have hfile : ((d.view r).sync).1.file.bytes = d.bytes r.name := by
    rw [bytes, ← file_view, FaultyFile.sync]
    split
    · rfl
    · exact File.bytes_sync _
  rw [sync, bytes_store]
  split
  · rename_i hname
    rw [hname]
    exact hfile
  · rfl

/-- **A write below the offset limit fails, or overlays the file of its name**, and nothing else changes. -/
theorem writeAt_cases {d : Disk} {r : FileRef} (h : d.Candid r) {off : Nat} {b : Bytes} (hpos : 0 < b.size)
    (hlim : off + b.size < systemOffsetLimit) :
    (d.Frozen r ∧ ∃ d', d.writeAt r off b = (d', .error diskUnavailable)) ∨
    ∃ d', d.writeAt r off b = (d', .ok ()) ∧ d'.Candid r ∧ (d'.Blind r → d.Blind r) ∧
      d'.bytes r.name = (d.bytes r.name).overlay off b ∧
      ∀ name, name ≠ r.name → d'.file name = d.file name := by
  obtain ⟨hok, hbytes⟩ := File.writeAt_inside (f := (d.view r).file) hpos hlim
  by_cases hleft : (d.view r).faults.writesLeft = some 0
  · refine .inl ⟨hleft, d.store r (d.view r), ?_⟩
    simp only [writeAt, FaultyFile.writeAt, if_pos hleft]
  · refine .inr ⟨_, ?_, candid_store (f := ((d.view r).writeAt off b).1) ?_,
      blind_of_store (f := ((d.view r).writeAt off b).1) ?_ ?_, ?_, fun name hname => d.file_store_other _ hname⟩
    · simp only [writeAt, FaultyFile.writeAt, if_neg hleft, hok]
    · simp only [FaultyFile.writeAt, if_neg hleft]
      exact h
    · simp only [FaultyFile.writeAt, if_neg hleft]
    · simp only [FaultyFile.writeAt, if_neg hleft]
    · rw [bytes_store, if_pos rfl]
      simp only [FaultyFile.writeAt, if_neg hleft]
      rw [hbytes, file_view]
      rfl

/-! ## A disk without faults -/

/-- No call on the file of this name is told to fail or to misreport. -/
def Faultless (d : Disk) (name : String) : Prop := (d.file name).faults = {}

/-- Without faults it does not matter how a store reaches its file. -/
theorem view_of_faultless {d : Disk} {r : FileRef} (h : d.Faultless r.name) :
    d.view r = d.file r.name := by
  unfold view
  split
  · rw [← h]
  · rfl

theorem faults_of_faultless {d : Disk} {r : FileRef} (h : d.Faultless r.name) : (d.view r).faults = {} := by
  rw [view_of_faultless h, h]

theorem store_of_faultless {d : Disk} {r : FileRef} {f : FaultyFile} (h : d.Faultless r.name)
    (hf : f.faults = {}) : d.store r f = d.put r.name f := by
  unfold store
  split
  · rw [Faultless, ← hf] at h
    show d.put r.name ⟨f.file, (d.file r.name).faults⟩ = d.put r.name f
    rw [h]
  · rfl

theorem faultless_put {d : Disk} {name : String} {f : FaultyFile} (hf : f.faults = {})
    {other : String} (h : d.Faultless other) : (d.put name f).Faultless other := by
  rw [Faultless, file_put]
  split
  · exact hf
  · exact h

theorem len_of_faultless {d : Disk} {r : FileRef} (h : d.Faultless r.name) :
    d.len r = .ok (d.bytes r.name).size := by
  rw [len, view_of_faultless h, FaultyFile.len, h]
  rfl

theorem readAt_of_faultless {d : Disk} {r : FileRef} (h : d.Faultless r.name) (off len : Nat) :
    d.readAt r off len = (d.file r.name).file.readAt off len := by
  rw [readAt, view_of_faultless h, FaultyFile.readAt, h]
  rfl

/-- **A write below the offset limit succeeds and overlays the file of its name**, and nothing else
changes. -/
theorem writeAt_of_faultless {d : Disk} {r : FileRef} (h : d.Faultless r.name) {off : Nat}
    {b : Bytes} (hpos : 0 < b.size) (hlim : off + b.size < systemOffsetLimit) :
    ∃ d', d.writeAt r off b = (d', .ok ()) ∧ (∀ name, d.Faultless name → d'.Faultless name) ∧
      ∀ name, d'.bytes name =
        if name = r.name then (d.bytes r.name).overlay off b else d.bytes name := by
  obtain ⟨hok, hbytes⟩ := File.writeAt_inside (f := (d.file r.name).file) hpos hlim
  have hf : (d.file r.name).faults = {} := h
  have hw : (d.view r).writeAt off b =
      ({ file := ((d.file r.name).file.writeAt off b).1, faults := {} }, .ok ()) := by
    rw [view_of_faultless h, ← hok]
    simp [FaultyFile.writeAt, hf]
  refine ⟨d.put r.name { file := ((d.file r.name).file.writeAt off b).1, faults := {} }, ?_,
    fun name => faultless_put rfl, ?_⟩
  · simp only [writeAt, hw, store_of_faultless h]
  · intro name
    rw [bytes_put]
    split
    · exact hbytes
    · rfl

theorem sync_of_faultless {d : Disk} {r : FileRef} (h : d.Faultless r.name) :
    ∃ d', d.sync r = (d', .ok ()) ∧ (∀ name, d.Faultless name → d'.Faultless name) ∧
      ∀ name, d'.bytes name = d.bytes name := by
  have hf : (d.file r.name).faults = {} := h
  have hs : (d.view r).sync = ({ file := (d.file r.name).file.sync, faults := {} }, .ok ()) := by
    rw [view_of_faultless h]
    simp [FaultyFile.sync, hf]
  refine ⟨d.put r.name { file := (d.file r.name).file.sync, faults := {} }, ?_,
    fun name => faultless_put rfl, ?_⟩
  · simp only [sync, hs, store_of_faultless h]
  · intro name
    rw [bytes_put]
    split
    · rename_i hname
      rw [hname, bytes]
      exact (d.file r.name).file.bytes_sync
    · rfl

end Disk

end PageEngine
