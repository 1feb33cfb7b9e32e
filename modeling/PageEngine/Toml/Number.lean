import PageEngine.Toml.Lexeme

/-!
# `Toml/Number.lean` — the numbers of TOML

Integers are decimal with an optional sign, or hexadecimal, octal or binary without one, and have to fit
a signed word. Underscores stand between digits. A decimal float has a fraction or an exponent; it is
refused when it is positive and rounds to infinity. A float is kept as it is written, without its
underscores.
-/

set_option autoImplicit false

namespace PageEngine

namespace Toml

/-- One more than the largest integer. -/
def integerLimit : Nat := 1 <<< 63

/-- Digits with underscores between them, after a first digit. -/
def moreDigits (base : Nat) : Reader (List Char)
  | '_' :: c :: r =>
    if (digit? base c).isSome then (moreDigits base r).map fun (ds, rest) => (c :: ds, rest) else none
  | '_' :: [] => none
  | c :: r =>
    if (digit? base c).isSome then (moreDigits base r).map fun (ds, rest) => (c :: ds, rest)
    else some ([], c :: r)
  | [] => some ([], [])

/-- At least one digit, with underscores between the digits. -/
def digits (base : Nat) : Reader (List Char)
  | [] => none
  | c :: r =>
    if (digit? base c).isSome then (moreDigits base r).map fun (ds, rest) => (c :: ds, rest) else none

/-- A sign, and whether it is the minus. -/
def sign : List Char → Option Char × List Char
  | '+' :: r => (some '+', r)
  | '-' :: r => (some '-', r)
  | r => (none, r)

/-- The digits of a decimal integer: a zero alone, or digits that do not begin with zero. -/
def decimalDigits : Reader (List Char)
  | '0' :: r => some (['0'], r)
  | s => digits 10 s

/-- The digits after a point. -/
def fraction? : List Char → Option (Option (List Char) × List Char)
  | '.' :: r => (digits 10 r).map fun (ds, rest) => (some ds, rest)
  | r => some (none, r)

/-- The sign and the digits after an `e`. -/
def exponent? : List Char → Option (Option (Option Char × List Char) × List Char)
  | c :: r =>
    if c = 'e' ∨ c = 'E' then
      let (sg, r) := sign r
      (digits 10 r).map fun (ds, rest) => (some (sg, ds), rest)
    else some (none, c :: r)
  | [] => some (none, [])

/-- Whether `m * 10 ^ e` rounds to infinity among the floats of a word: it is not less than the point
half way between the largest float and the next power of two. -/
def overflows (m : Nat) (e : Int) : Bool :=
  let size := (Nat.toDigits 10 m).length
  if m = 0 then false
  else if (size : Int) + e ≤ 308 then false
  else if 310 < (size : Int) + e then true
  else (1 <<< 1024) - (1 <<< 970) ≤ m * Nat.pow 10 e.toNat / Nat.pow 10 (-e).toNat

/-- A number: an integer, or the text of a float. -/
inductive Numeral where
  | integer (n : Int)
  | float (text : List Char)
deriving DecidableEq

/-- An integer that fits a signed word. -/
def integer? (negative : Bool) (n : Nat) : Option Numeral :=
  if negative then if n ≤ integerLimit then some (.integer (-n)) else none
  else if n < integerLimit then some (.integer n) else none

/-- An integer in another base than ten, after its mark. -/
def based (base : Nat) : Reader Numeral := fun s => do
  let (ds, r) ← digits base s
  let n ← number? base ds
  some (← integer? false n, r)

/-- The text of a sign. -/
def signText (sg : Option Char) : List Char := sg.toList

/-- A decimal number after its sign. -/
def decimal (sg : Option Char) : Reader Numeral := fun s => do
  let (whole, r) ← decimalDigits s
  let (frac, r) ← fraction? r
  let (expo, r) ← exponent? r
  let negative := sg = some '-'
  match frac, expo with
  | none, none => some (← integer? negative (← number? 10 whole), r)
  | _, _ =>
    let fracDigits := frac.getD []
    let (esg, edigits) := expo.getD (none, ['0'])
    let m ← number? 10 (whole ++ fracDigits)
    let e ← number? 10 edigits
    let power : Int := (if esg = some '-' then -(e : Int) else e) - fracDigits.length
    if !negative && overflows m power then none
    else
      let point := if frac.isSome then '.' :: fracDigits else []
      let power := if expo.isSome then 'e' :: signText esg ++ edigits else []
      some (.float (signText sg ++ whole ++ point ++ power), r)

/-- A number, from its sign or first digit on. -/
def numeral : Reader Numeral := fun s =>
  match s with
  | '0' :: 'x' :: r => based 16 r
  | '0' :: 'o' :: r => based 8 r
  | '0' :: 'b' :: r => based 2 r
  | s =>
    let (sg, r) := sign s
    match r with
    | 'i' :: 'n' :: 'f' :: r => some (.float (signText sg ++ ['i', 'n', 'f']), r)
    | 'n' :: 'a' :: 'n' :: r => some (.float (signText sg ++ ['n', 'a', 'n']), r)
    | r => decimal sg r

end Toml

end PageEngine
