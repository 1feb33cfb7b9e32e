/-!
# `Toml/Lexeme.lean` — the characters, strings and keys of TOML

Readers take the characters from where they stand and give what they read together with the rest, or
`none` if the text is not well formed there.

A **basic** string stands in double quotes and knows escapes, a **literal** one stands in single quotes
and knows none. With tripled quotes both may run over several lines: a newline right after the opening
quotes is left out, one or two quotes may stand anywhere in them, also at the end, and in a basic string
a backslash at the end of a line skips to the next visible character.
-/

set_option autoImplicit false

namespace PageEngine

namespace Toml

/-- Reads from the front of a text. -/
abbrev Reader (α : Type) := List Char → Option (α × List Char)

/-! ## Characters -/

/-- A space or a tab. -/
def isBlank (c : Char) : Bool := c = ' ' || c = '\t'

/-- A character that may stand in a comment: anything but a control character, and the tab. -/
def isVisible (c : Char) : Bool := c = '\t' || (0x20 ≤ c.toNat && c.toNat ≠ 0x7f)

/-- A character of a key without quotes. -/
def isBareKey (c : Char) : Bool := c.isAlphanum || c = '-' || c = '_'

/-- A character that stands for itself in a basic string. -/
def isBasic (c : Char) : Bool := isVisible c && c ≠ '"' && c ≠ '\\'

/-- A character of a literal string. -/
def isLiteral (c : Char) : Bool := isVisible c && c ≠ '\''

/-! ## Between the words -/

/-- The rest after spaces and tabs. -/
def skipBlank (s : List Char) : List Char := s.dropWhile isBlank

/-- The rest after a newline. -/
def newline? : List Char → Option (List Char)
  | '\n' :: r => some r
  | '\r' :: '\n' :: r => some r
  | _ => none

/-- The rest after a newline, if there is one. -/
def skipNewline (s : List Char) : List Char := (newline? s).getD s

/-- The rest of a line that has nothing more than blanks and a comment. -/
def lineEnd? (s : List Char) : Option (List Char) :=
  let s := match skipBlank s with
    | '#' :: r => r.dropWhile isVisible
    | r => r
  if s.isEmpty then some [] else newline? s

/-- The rest after blanks, newlines and whole comments; `comment` says whether the front stands in a
comment. -/
def gapFrom (comment : Bool) : List Char → Option (List Char)
  | [] => if comment then none else some []
  | '\n' :: r => gapFrom false r
  | '\r' :: '\n' :: r => gapFrom false r
  | c :: r =>
    if comment then if isVisible c then gapFrom true r else none
    else if c = '#' then gapFrom true r
    else if isBlank c then gapFrom false r
    else some (c :: r)

/-- The rest after blanks, newlines and comments, as they may stand between the elements of an array. -/
def gap (s : List Char) : Option (List Char) := gapFrom false s

/-! ## Digits -/

/-- The value of a digit, up to sixteen of them. -/
def digit? (base : Nat) (c : Char) : Option Nat :=
  let n :=
    if '0' ≤ c ∧ c ≤ '9' then c.toNat - '0'.toNat
    else if 'a' ≤ c ∧ c ≤ 'f' then c.toNat - 'a'.toNat + 10
    else if 'A' ≤ c ∧ c ≤ 'F' then c.toNat - 'A'.toNat + 10
    else base
  if n < base then some n else none

/-- The number that digits write. -/
def number? (base : Nat) (digits : List Char) : Option Nat :=
  digits.foldlM (fun n c => (digit? base c).map (base * n + ·)) 0

/-- The character with the code that hexadecimal digits write. -/
def codePoint? (digits : List Char) : Option Char := do
  let n ← number? 16 digits
  if h : n.isValidChar then some (Char.ofNatAux n h) else none

/-- The character that a letter after a backslash means. -/
def escaped? : Char → Option Char
  | 'b' => some '\x08'
  | 't' => some '\t'
  | 'n' => some '\n'
  | 'f' => some '\x0c'
  | 'r' => some '\r'
  | '"' => some '"'
  | '\\' => some '\\'
  | _ => none

/-! ## Strings -/

/-- Puts a character before what a reader has read. -/
def before (c : Char) (r : Option (List Char × List Char)) : Option (List Char × List Char) :=
  r.map fun (cs, rest) => (c :: cs, rest)

/-- The rest of a basic string on one line. -/
def basic : Reader (List Char)
  | [] => none
  | '"' :: r => some ([], r)
  | '\\' :: 'u' :: a :: b :: c :: d :: r => do before (← codePoint? [a, b, c, d]) (basic r)
  | '\\' :: 'U' :: a :: b :: c :: d :: e :: f :: g :: h :: r => do
    before (← codePoint? [a, b, c, d, e, f, g, h]) (basic r)
  | '\\' :: c :: r => do before (← escaped? c) (basic r)
  | c :: r => if isBasic c then before c (basic r) else none

/-- Where the reader of a basic string over several lines stands. -/
inductive Fold where
  /-- In the text. -/
  | text
  /-- After a backslash that has to be the last visible character of its line. -/
  | toNewline
  /-- After such a line, before the next visible character. -/
  | past
deriving DecidableEq

/-- The rest of a basic string over several lines. -/
def basicLines (fold : Fold) : Reader (List Char)
  | [] => none
  | '\n' :: r => if fold = .text then before '\n' (basicLines .text r) else basicLines .past r
  | '\r' :: '\n' :: r => if fold = .text then before '\n' (basicLines .text r) else basicLines .past r
  -- Up to two quotes before the closing three belong to the string.
  | '"' :: '"' :: '"' :: '"' :: '"' :: r => if fold = .toNewline then none else some (['"', '"'], r)
  | '"' :: '"' :: '"' :: '"' :: r => if fold = .toNewline then none else some (['"'], r)
  | '"' :: '"' :: '"' :: r => if fold = .toNewline then none else some ([], r)
  | '"' :: r => if fold = .toNewline then none else before '"' (basicLines .text r)
  | '\\' :: 'u' :: a :: b :: c :: d :: r =>
    if fold = .toNewline then none else do before (← codePoint? [a, b, c, d]) (basicLines .text r)
  | '\\' :: 'U' :: a :: b :: c :: d :: e :: f :: g :: h :: r =>
    if fold = .toNewline then none
    else do before (← codePoint? [a, b, c, d, e, f, g, h]) (basicLines .text r)
  | '\\' :: '\n' :: r => if fold = .toNewline then none else basicLines .past r
  | '\\' :: '\r' :: '\n' :: r => if fold = .toNewline then none else basicLines .past r
  | '\\' :: c :: r =>
    if fold = .toNewline then none
    else if isBlank c then basicLines .toNewline r
    else do before (← escaped? c) (basicLines .text r)
  | c :: r =>
    if isBlank c ∧ fold ≠ .text then basicLines fold r
    else if fold = .toNewline then none
    else if isBasic c then before c (basicLines .text r)
    else none

/-- The rest of a literal string on one line. -/
def literal : Reader (List Char)
  | [] => none
  | '\'' :: r => some ([], r)
  | c :: r => if isLiteral c then before c (literal r) else none

/-- The rest of a literal string over several lines. -/
def literalLines : Reader (List Char)
  | [] => none
  | '\n' :: r => before '\n' (literalLines r)
  | '\r' :: '\n' :: r => before '\n' (literalLines r)
  | '\'' :: '\'' :: '\'' :: '\'' :: '\'' :: r => some (['\'', '\''], r)
  | '\'' :: '\'' :: '\'' :: '\'' :: r => some (['\''], r)
  | '\'' :: '\'' :: '\'' :: r => some ([], r)
  | '\'' :: r => before '\'' (literalLines r)
  | c :: r => if isLiteral c then before c (literalLines r) else none

/-- A string of any kind, from its opening quote on. -/
def string : Reader String := fun s =>
  let read := match s with
    | '"' :: '"' :: '"' :: r => basicLines .text (skipNewline r)
    | '\'' :: '\'' :: '\'' :: r => literalLines (skipNewline r)
    | '"' :: r => basic r
    | '\'' :: r => literal r
    | _ => none
  read.map fun (cs, r) => (String.ofList cs, r)

/-! ## Keys -/

/-- One part of a key: bare, or a string on one line. -/
def keyPart : Reader String := fun s =>
  let read := match s with
    | '"' :: r => basic r
    | '\'' :: r => literal r
    | s =>
      let bare := s.takeWhile isBareKey
      if bare.isEmpty then none else some (bare, s.dropWhile isBareKey)
  read.map fun (cs, r) => (String.ofList cs, r)

/-- One more than the number of parts of the longest key, and than the depth of the deepest value. -/
def depthLimit : Nat := 80

/-- A key of at most the given number of parts, with dots between them and blanks around each. -/
def keyOf : Nat → Reader (List String)
  | 0, _ => none
  | n + 1, s => do
    let (k, r) ← keyPart (skipBlank s)
    match skipBlank r with
    | '.' :: r => do
      let (ks, r) ← keyOf n r
      some (k :: ks, r)
    | r => some ([k], r)

def key : Reader (List String) := keyOf (depthLimit - 1)

end Toml

end PageEngine
