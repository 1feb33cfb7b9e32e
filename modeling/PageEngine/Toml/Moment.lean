import PageEngine.Toml.Lexeme

/-!
# `Toml/Moment.lean` — the dates and times of TOML

A date, a time of day, or both with an optional offset from universal time. Dates are of the Gregorian
calendar, a minute may have a sixty-first second, and the fraction of a second has any number of digits,
of which nine count.
-/

set_option autoImplicit false

namespace PageEngine

namespace Toml

structure Date where
  year : Nat
  month : Nat
  day : Nat
deriving DecidableEq

structure Time where
  hour : Nat
  minute : Nat
  second : Nat
  nanosecond : Nat
deriving DecidableEq

/-- A date, a time of day, or both; the offset is in minutes and zero for universal time. -/
structure Moment where
  date : Option Date
  time : Option Time
  offset : Option Int
deriving DecidableEq

/-- Exactly the given number of digits, whose number lies in a range. -/
def fixed (count low high : Nat) : Reader Nat := fun s => do
  let ds := s.take count
  if ds.length < count then none
  else
    let n ← number? 10 ds
    if low ≤ n ∧ n ≤ high then some (n, s.drop count) else none

/-- The rest after a character. -/
def symbol (c : Char) : List Char → Option (List Char)
  | d :: r => if d = c then some r else none
  | [] => none

/-- The number of days of a month. -/
def daysIn (year month : Nat) : Nat :=
  if month = 2 then
    if year % 4 = 0 ∧ (year % 100 ≠ 0 ∨ year % 400 = 0) then 29 else 28
  else if month = 4 ∨ month = 6 ∨ month = 9 ∨ month = 11 then 30
  else 31

def date : Reader Date := fun s => do
  let (year, r) ← fixed 4 0 9999 s
  let r ← symbol '-' r
  let (month, r) ← fixed 2 1 12 r
  let r ← symbol '-' r
  let (day, r) ← fixed 2 1 (daysIn year month) r
  some (⟨year, month, day⟩, r)

/-- The nanoseconds of a fraction of a second, if there is one. -/
def subsecond (s : List Char) : Nat × List Char :=
  match s with
  | '.' :: r =>
    let ds := r.takeWhile Char.isDigit
    if ds.isEmpty then (0, s)
    else ((number? 10 ((ds ++ List.replicate 9 '0').take 9)).getD 0, r.dropWhile Char.isDigit)
  | _ => (0, s)

def time : Reader Time := fun s => do
  let (hour, r) ← fixed 2 0 23 s
  let r ← symbol ':' r
  let (minute, r) ← fixed 2 0 59 r
  let r ← symbol ':' r
  let (second, r) ← fixed 2 0 60 r
  let (nanosecond, r) := subsecond r
  some (⟨hour, minute, second, nanosecond⟩, r)

/-- An offset from universal time. -/
def offset : Reader Int := fun s =>
  let minutes (r : List Char) : Option (Nat × List Char) := do
    let (h, r) ← fixed 2 0 23 r
    let r ← symbol ':' r
    let (m, r) ← fixed 2 0 59 r
    some (60 * h + m, r)
  match s with
  | 'Z' :: r => some (0, r)
  | 'z' :: r => some (0, r)
  | '+' :: r => (minutes r).map fun (m, r) => ((m : Int), r)
  | '-' :: r => (minutes r).map fun (m, r) => (-(m : Int), r)
  | _ => none

/-- The time of day after a date, with its offset if it has one. -/
def timeAfterDate : Reader (Time × Option Int)
  | c :: r => do
    if c = 'T' ∨ c = 't' ∨ c = ' ' then
      let (t, r) ← time r
      match offset r with
      | some (o, r) => some ((t, some o), r)
      | none => some ((t, none), r)
    else none
  | [] => none

/-- A date, a time of day, or both. -/
def moment : Reader Moment := fun s =>
  match date s with
  | some (d, r) =>
    match timeAfterDate r with
    | some ((t, o), r) => some (⟨some d, some t, o⟩, r)
    | none => some (⟨some d, none, none⟩, r)
  | none => (time s).map fun (t, r) => (⟨none, some t, none⟩, r)

end Toml

end PageEngine
