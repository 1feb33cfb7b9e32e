/-!
# `ChaCha.lean` — the ChaCha block function and its key stream

A block is sixteen words: four constants, the key, the number of the block in two words and two zeros.
A double round mixes the columns and then the diagonals; at the end the first state is added. The **key
stream** is the blocks of the numbers 0, 1, 2, … in order.
-/

set_option autoImplicit false

namespace PageEngine

namespace ChaCha

/-- Sixteen words. -/
abbrev Block := Vector UInt32 16

/-- The word with its bits moved cyclically upwards. -/
def rotateLeft (x : UInt32) (n : UInt32) : UInt32 := (x <<< n) ||| (x >>> (32 - n))

/-- The word with its bits moved cyclically downwards. -/
def rotateRight (x : UInt32) (n : UInt32) : UInt32 := (x >>> n) ||| (x <<< ((32 - n) % 32))

/-- Mixes four words of a block. -/
def quarterRound (s : Block) (a b c d : Fin 16) : Block :=
  let s := s.set a (s[a] + s[b])
  let s := s.set d (rotateLeft (s[d] ^^^ s[a]) 16)
  let s := s.set c (s[c] + s[d])
  let s := s.set b (rotateLeft (s[b] ^^^ s[c]) 12)
  let s := s.set a (s[a] + s[b])
  let s := s.set d (rotateLeft (s[d] ^^^ s[a]) 8)
  let s := s.set c (s[c] + s[d])
  s.set b (rotateLeft (s[b] ^^^ s[c]) 7)

/-- Mixes the columns and then the diagonals. -/
def doubleRound (s : Block) : Block :=
  let s := quarterRound s 0 4 8 12
  let s := quarterRound s 1 5 9 13
  let s := quarterRound s 2 6 10 14
  let s := quarterRound s 3 7 11 15
  let s := quarterRound s 0 5 10 15
  let s := quarterRound s 1 6 11 12
  let s := quarterRound s 2 7 8 13
  quarterRound s 3 4 9 14

/-- The block before the rounds; the constants spell `expand 32-byte k`. -/
def start (key : Vector UInt32 8) (number : UInt64) : Block :=
  #v[0x61707865, 0x3320646e, 0x79622d32, 0x6b206574,
     key[0], key[1], key[2], key[3], key[4], key[5], key[6], key[7],
     number.toUInt32, (number >>> 32).toUInt32, 0, 0]

/-- The block of a number after the given count of double rounds. -/
def block (doubleRounds : Nat) (key : Vector UInt32 8) (number : UInt64) : Block :=
  let first := start key number
  let last := doubleRounds.repeat doubleRound first
  Vector.zipWith (· + ·) first last

end ChaCha

end PageEngine
