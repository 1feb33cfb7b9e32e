import PageEngine.Options
import PageEngine.Toml.Document

/-!
# `Options/Document.lean` — options from a TOML document

The options stand under the key `buffer_pool`, as a table with the keys `capacity` and `eviction_seed`,
or as an array that gives them in this order; what is missing keeps its default. A table may have no
other key, while further elements of an array, and everything outside `buffer_pool`, do not matter.
The document is read as a whole before the options are checked.
-/

set_option autoImplicit false

namespace PageEngine

open Toml

namespace Options

/-- A count that is written as an integer. -/
def count? : Value → Option Nat
  | .integer n => if n < 0 then none else some n.toNat
  | _ => none

/-- Takes over the value of a key. -/
def withField (o : Options) (key : List String) (v : Value) : Option Options :=
  match key with
  | ["capacity"] => (count? v).map fun n => { o with capacity := n }
  | ["eviction_seed"] => (count? v).map fun n => { o with evictionSeed := some n }
  | _ => none

/-- Options from the values of a table. -/
def ofLeaves? (leaves : List (List String × Value)) : Option Options :=
  leaves.foldlM (fun o (k, v) => o.withField k v) {}

/-- Options from the elements of an array. -/
def ofElements? : List Value → Option Options
  | [] => some {}
  | [capacity] => withField {} ["capacity"] capacity
  | capacity :: seed :: _ => do
    let o ← withField {} ["capacity"] capacity
    o.withField ["eviction_seed"] seed

/-- The values below the table of a key. There are none to be had if something else than a value stands
below it. -/
def below? (key : String) (d : Toml.Document) : Option (List (List String × Value)) :=
  (d.nodes.filterMap fun (p, n) =>
    match p with
    | .key k :: rest => if k = key ∧ !rest.isEmpty then some (rest, n) else none
    | _ => none).mapM fun (p, n) =>
      match Toml.Document.keys? p, n with
      | some ks, .value v => some (ks, v)
      | _, _ => none

/-- The options of a document. -/
def ofDocument? (d : Toml.Document) : Option Options :=
  match d.get? [.key "buffer_pool"] with
  | none => some {}
  | some (.value (.table leaves)) => ofLeaves? leaves
  | some (.value (.array vs)) => ofElements? vs
  | some (.table _ _) => (below? "buffer_pool" d).bind ofLeaves?
  | _ => none

/-- Options from the text of a document. -/
def ofText (s : String) : Except OptionsError Options :=
  match (Toml.Document.ofText? s).bind ofDocument? with
  | some o => o.validate
  | none => .error .malformed

/-- Options from the contents of a file, or from no file at all. -/
def ofFile (contents : Option Bytes) : Except OptionsError Options :=
  match contents.bind fun b => String.fromUTF8? ⟨b⟩ with
  | some s => ofText s
  | none => .error .unreadable

end Options

end PageEngine
