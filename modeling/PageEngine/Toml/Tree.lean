import PageEngine.Toml.Number
import PageEngine.Toml.Moment

/-!
# `Toml/Tree.lean` — what a TOML document says

A document is a tree of tables. It is kept as the list of its nodes, each under its path from the root: a
**value**, a **table**, or the elements of an **array of tables**. A table is *implicit* as long as it is
only mentioned on the way to another one, and *dotted* when it is mentioned by the dots of a key.

> **a document is added to, never changed**: a key is set once, a table is opened once and not after a
> dotted key made it, and dotted keys add only to tables that no header has opened.
-/

set_option autoImplicit false

namespace PageEngine

namespace Toml

/-- A value. A table that is written as a value is given by its leaves: the path of keys to each value
in it that is not such a table again. -/
inductive Value where
  | string (s : String)
  | integer (n : Int)
  | float (text : List Char)
  | boolean (b : Bool)
  | moment (m : Moment)
  | array (vs : List Value)
  | table (leaves : List (List String × Value))

/-- One step on the way from the root to a node. -/
inductive Seg where
  | key (k : String)
  /-- An element of an array of tables. -/
  | element (i : Nat)
deriving DecidableEq

/-- The way from the root to a node. -/
abbrev Path := List Seg

/-- What stands at a path. -/
inductive Node where
  | value (v : Value)
  | table (implicit dotted : Bool)
  /-- An array of that many tables. -/
  | tables (count : Nat)

/-- The nodes of a tree below its root, which is a table. -/
structure Document where
  nodes : List (Path × Node) := []

namespace Document

def get? (d : Document) (p : Path) : Option Node := d.nodes.lookup p

def put (d : Document) (p : Path) (n : Node) : Document := ⟨(p, n) :: d.nodes.filter (·.1 ≠ p)⟩

/-- Goes down from a table along keys, making the tables that are missing. An array of tables is entered
at its last element. A dotted key does not enter a table that is not implicit. -/
def descend (dotted : Bool) : Document → Path → List String → Option (Document × Path)
  | d, p, [] => some (d, p)
  | d, p, k :: ks =>
    let q := p ++ [.key k]
    match d.get? q with
    | none => descend dotted (d.put q (.table true dotted)) q ks
    | some (.value _) => none
    | some (.table implicit _) => if dotted && !implicit then none else descend dotted d q ks
    | some (.tables n) => descend dotted d (q ++ [.element (n - 1)]) ks

/-- Whether the dots of a key made the table at a path. -/
def isDotted (d : Document) (p : Path) : Bool :=
  match d.get? p with
  | some (.table _ dotted) => dotted
  | _ => false

/-- Sets the value of a key, seen from a table. -/
def set (d : Document) (table : Path) (key : List String) (v : Value) : Option Document := do
  let last ← key.getLast?
  let (d, p) ← d.descend true table key.dropLast
  let q := p ++ [.key last]
  -- A dotted key ends in a table that dots have made, a plain one in a table that they have not.
  if d.isDotted p = key.dropLast.isEmpty then none
  else if (d.get? q).isSome then none
  else some (d.put q (.value v))

/-- Opens the table of a header. -/
def openTable (d : Document) (key : List String) : Option (Document × Path) := do
  let last ← key.getLast?
  let (d, p) ← d.descend false [] key.dropLast
  let q := p ++ [.key last]
  match d.get? q with
  | none => some (d.put q (.table false false), q)
  | some (.table true false) => some (d.put q (.table false false), q)
  | _ => none

/-- Opens a new last element of the array of tables of a header. -/
def openElement (d : Document) (key : List String) : Option (Document × Path) := do
  let last ← key.getLast?
  let (d, p) ← d.descend false [] key.dropLast
  let q := p ++ [.key last]
  match d.get? q with
  | none => some (d.put q (.tables 1), q ++ [.element 0])
  | some (.tables n) => some (d.put q (.tables (n + 1)), q ++ [.element n])
  | _ => none

/-- The keys of a path that enters no array. -/
def keys? (p : Path) : Option (List String) :=
  p.mapM fun s => match s with
    | .key k => some k
    | .element _ => none

/-- The values of a tree and the keys on the way to each of them, in the order in which they were set. -/
def leaves (d : Document) : List (List String × Value) :=
  d.nodes.reverse.filterMap fun (p, n) =>
    match n, keys? p with
    | .value v, some ks => some (ks, v)
    | _, _ => none

end Document

end Toml

end PageEngine
