import PageEngine.ChaCha

/-!
# `Draws.lean` — random choices for eviction

A source of random words and how many of them are used. A seed fixes the words: they are the key stream
of the twelve-round ChaCha cipher under a key drawn from the seed, two words of the stream at a time,
the low one first.

> **a choice uses words up and leaves the sequence as it is**. The words that would favour some numbers are skipped.
-/

set_option autoImplicit false

namespace PageEngine

/-- A sequence of random words, and how many were used. -/
structure Draws where
  word : Nat → UInt64
  used : Nat := 0

namespace Draws

/-- One step of the linear congruential sequence from which keys are drawn. -/
def stretch (s : UInt64) : UInt64 := s * 6364136223846793005 + 11634580027462260723

/-- The key word of a state: its high bits folded and rotated. -/
def keyWord (s : UInt64) : UInt32 :=
  ChaCha.rotateRight (((s >>> 18) ^^^ s) >>> 27).toUInt32 (s >>> 59).toUInt32

def key (seed : UInt64) : Vector UInt32 8 :=
  Vector.ofFn fun i => keyWord ((i.val + 1).repeat stretch seed)

def ofSeed (seed : UInt64) : Draws where
  word k :=
    let b := ChaCha.block 6 (key seed) (k / 8).toUInt64
    let half (i : Nat) : UInt64 := (b[i]?.getD 0).toUInt64
    half (2 * (k % 8)) ||| (half (2 * (k % 8) + 1) <<< 32)

/-- The largest low half that is accepted for a choice below `n`: the largest multiple of `n` by a power
of two that fits a word, less one. -/
def zone (n : Nat) : Nat := (n <<< (63 - Nat.log2 n)) - 1

/-- Words that are skipped in one choice at most. -/
def skipLimit : Nat := 256

/-- The choice below `n` that the next accepted word makes: the high half of its product with `n`. -/
def choose (d : Draws) (n : Nat) : Nat → Nat × Draws
  | 0 => ((d.word d.used).toNat * n / UInt64.size, { d with used := d.used + 1 })
  | skips + 1 =>
    -- A low half past the zone belongs to the part of the words that would favour some numbers.
    let product := (d.word d.used).toNat * n
    let d := { d with used := d.used + 1 }
    if product % UInt64.size ≤ zone n then (product / UInt64.size, d) else d.choose n skips

/-- A choice among the numbers below `n`. -/
def below (d : Draws) (n : Nat) : Nat × Draws := d.choose n skipLimit

/-- A choice uses words up and changes none. -/
theorem choose_word (d : Draws) (n skips : Nat) : (d.choose n skips).2.word = d.word := by
  induction skips generalizing d with
  | zero => rfl
  | succ skips ih =>
    simp only [choose]
    split
    · rfl
    · exact ih _

@[simp] theorem below_word (d : Draws) (n : Nat) : (d.below n).2.word = d.word := d.choose_word n skipLimit

end Draws

end PageEngine
