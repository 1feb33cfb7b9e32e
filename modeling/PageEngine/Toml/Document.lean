import PageEngine.Toml.Tree

/-!
# `Toml/Document.lean` — reading a TOML document

A document is a sequence of lines: a key with its value, the header of a table in brackets, the header of
an element of an array of tables in double brackets, or nothing, each with an optional comment. Values
of a line may run over several lines inside arrays and tripled quotes.

> **a text is a document or it is not**: `Document.ofText?` reads all of it.
-/

set_option autoImplicit false

namespace PageEngine

namespace Toml

/-! ## Values -/

/-- The elements of an array after its bracket, up to the given number of them and the end. -/
def elements (value : Reader Value) : Nat → Reader (List Value)
  | 0, _ => none
  | n + 1, s => do
    match ← gap s with
    | ']' :: r => some ([], r)
    | s => do
      let (v, r) ← value s
      match ← gap r with
      | ',' :: r => do
        let (vs, r) ← elements value n r
        some (v :: vs, r)
      | ']' :: r => some ([v], r)
      | _ => none

/-- A key, the equals sign and its value. -/
def keyValue (value : Reader Value) : Reader (List String × Value) := fun s => do
  let (k, r) ← key s
  match r with
  | '=' :: r => do
    let (v, r) ← value (skipBlank r)
    some ((k, v), r)
  | _ => none

/-- The pairs of a table on one line, up to the given number of them and the end. -/
def pairs (value : Reader Value) : Nat → Document → Reader Document
  | 0, _, _ => none
  | n + 1, d, s => do
    let ((k, v), r) ← keyValue value s
    let d ← d.set [] k v
    match skipBlank r with
    | ',' :: r => pairs value n d r
    | '}' :: r => some (d, r)
    | _ => none

/-- A table on one line after its brace. -/
def inlineTable (value : Reader Value) : Reader Value := fun s =>
  match skipBlank s with
  | '}' :: r => some (.table [], r)
  | _ => (pairs value s.length {} s).map fun (d, r) => (.table d.leaves, r)

/-- A word that stands for a value. -/
def word (w : List Char) (v : Value) : Reader Value := fun s =>
  if w.isPrefixOf s then some (v, s.drop w.length) else none

/-- A date, a time or a number. -/
def momentOrNumber : Reader Value := fun s =>
  match moment s with
  | some (m, r) => some (.moment m, r)
  | none =>
    match numeral s with
    | some (.integer n, r) => some (.integer n, r)
    | some (.float text, r) => some (.float text, r)
    | none => none

/-- A value that is neither an array nor a table. -/
def scalar : Reader Value := fun s =>
  match s with
  | [] => none
  | 't' :: _ => word ['t', 'r', 'u', 'e'] (.boolean true) s
  | 'f' :: _ => word ['f', 'a', 'l', 's', 'e'] (.boolean false) s
  | c :: _ =>
    if c = '"' ∨ c = '\'' then (string s).map fun (t, r) => (.string t, r)
    else momentOrNumber s

/-- A value in which arrays and tables are nested at most as deep as the given number. -/
def value : Nat → Reader Value
  | depth, '[' :: r =>
    match depth with
    | 0 => none
    | depth + 1 => (elements (value depth) (r.length + 1) r).map fun (vs, r) => (.array vs, r)
  | depth, '\x7b' :: r =>
    match depth with
    | 0 => none
    | depth + 1 => inlineTable (value depth) r
  | _, s => scalar s

/-! ## Lines -/

/-- The tree so far and the table to which the next lines add. -/
structure Draft where
  tree : Document := {}
  table : Path := []

/-- A header in brackets: its key, and the rest of the text after its line. -/
def header (close : List Char) : Reader (List String) := fun s => do
  let (k, r) ← key s
  if close.isPrefixOf r then
    let r ← lineEnd? (r.drop close.length)
    some (k, r)
  else none

/-- One line. -/
def line : Draft → Reader Draft := fun d s =>
  match s with
  | '[' :: '[' :: r => do
    let (k, r) ← header [']', ']'] r
    let (tree, table) ← d.tree.openElement k
    some (⟨tree, table⟩, r)
  | '[' :: r => do
    let (k, r) ← header [']'] r
    let (tree, table) ← d.tree.openTable k
    some (⟨tree, table⟩, r)
  | _ => do
    let ((k, v), r) ← keyValue (value (depthLimit - 1)) s
    let r ← lineEnd? r
    let tree ← d.tree.set d.table k v
    some ({ d with tree }, r)

/-- Lines up to the given number and the end of the text. -/
def lines : Nat → Draft → List Char → Option Document
  | 0, _, _ => none
  | n + 1, d, s =>
    match skipBlank s with
    | [] => some d.tree
    | s =>
      match s with
      | '#' :: _ => do lines n d (← lineEnd? s)
      | '\n' :: r => lines n d r
      | '\r' :: r => do lines n d (← newline? ('\r' :: r))
      | s => do
        let (d, r) ← line d s
        lines n d r

/-- The text without a byte order mark in front. -/
def skipMark : List Char → List Char
  | '\uFEFF' :: r => r
  | s => s

/-- The document that a text writes. -/
def Document.ofText? (s : String) : Option Document :=
  let s := skipMark s.toList
  lines (s.length + 1) {} s

end Toml

end PageEngine
