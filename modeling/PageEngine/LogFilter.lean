import PageEngine.Error
import PageEngine.Text.CharClass

/-!
# `LogFilter.lean` — which log filters are accepted

A filter is a list of directives with commas between them; empty ones do not count. A directive is a
target, which may be a level itself, with an optional equals sign and the level for the target. A target
begins with a letter or a digit of any script, `-`, `:` or `_`. Levels are known by name in any case, or
by number. Blanks may stand before a directive that has no level of its own, and nowhere else but in a
target.

Logging itself is installed once per process and before any filter is given, so a filter that is accepted
is refused for that reason.
-/

set_option autoImplicit false

namespace PageEngine

namespace LogFilter

def levels : List String := ["trace", "debug", "info", "warn", "error", "off"]

/-- The largest number of a level. -/
def maxLevel : Nat := 5

/-- The number that a text of digits writes, with an optional plus sign. -/
def number? (s : List Char) : Option Nat :=
  let digits := match s with
    | '+' :: r => r
    | r => r
  if digits.isEmpty || !digits.all Char.isDigit then none
  else some (digits.foldl (fun n c => 10 * n + (c.toNat - '0'.toNat)) 0)

/-- Whether a text is a level; none at all stands for the default. -/
def isLevel (s : List Char) : Bool :=
  s.isEmpty || (number? s).any (· ≤ maxLevel) || levels.contains (String.ofList (s.map Char.toLower))

/-- Whether a target may begin with the character. -/
def begins (c : Char) : Bool := CharClass.isAlphanumeric c || c = '-' || c = ':' || c = '_'

/-- Whether a directive with a level is accepted, given the target and the level. -/
def acceptsLevel (target level : List Char) : Bool := target.head?.any begins && isLevel level

/-- Whether a directive without a level is accepted. -/
def acceptsTarget (target : List Char) : Bool := (target.dropWhile CharClass.isBlank).head?.any begins

/-- Whether a directive is accepted. The first equals sign ends the target. -/
def acceptsDirective (d : List Char) : Bool :=
  match d.dropWhile (· ≠ '=') with
  | [] => acceptsTarget d
  | _ :: level => acceptsLevel (d.takeWhile (· ≠ '=')) level

def accepts (filter : String) : Bool :=
  ((filter.splitOn ",").filter fun d => !d.isEmpty).all fun d => acceptsDirective d.toList

/-- The attempt to install logging with a filter. -/
def install (filter : String) : Except Error Unit :=
  if accepts filter then .error .loggingInstalled else .error .invalidLogFilter

end LogFilter

end PageEngine
