import Strata.Toml.Key
import Strata.Toml.Value

/-!
# Tables under construction

A document names its tables in headers and its entries in lines under them,
and a header or a line may lead through tables that nothing has named before;
those are made on the way. What may be added to a table afterwards depends on
how it came to be:

* one that was only passed through by a header may get a header of its own, once;
* one that was passed through by a dotted key belongs to the lines of one table:
  it is extended by further dotted keys, and never gets a header;
* one that has a header is never extended by a dotted key from outside.

Values are complete when they are written, tables between braces included. Of
an array of tables only the last one is still open.
-/

namespace Strata.Toml

/-- How a table came to be. -/
inductive Origin
  /-- It has a header of its own, or is the whole document. -/
  | header
  /-- A longer header leads through it. -/
  | headerPath
  /-- A dotted key leads through it. -/
  | dottedKey
  deriving DecidableEq, Repr

/-- What an entry of an open table holds. -/
inductive Node
  | value (complete : Value)
  | table (origin : Origin) (entries : List (String × Node))
  /-- An array of tables: the finished ones, and the entries of the last one. -/
  | tables (finished : List Value) (entries : List (String × Node))

/-- The entries of an open table, in the order of the document. -/
abbrev Entries := List (String × Node)

namespace Node

mutual

def toValue : Node → Value
  | .value complete => complete
  | .table _ entries => .table (finish entries)
  | .tables finished entries => .array (finished ++ [.table (finish entries)])

/-- The entries with everything complete. -/
def finish : List (String × Node) → List (String × Value)
  | [] => []
  | (key, node) :: rest => (key, node.toValue) :: finish rest

end

end Node

namespace Entries

/-- The entries with another node at a key. -/
def replace (key : String) (node : Node) (entries : Entries) : Entries :=
  entries.map fun entry => if entry.1 = key then (key, node) else entry

/-- The entries without one key. -/
def erase (key : String) (entries : Entries) : Entries :=
  entries.filter fun entry => entry.1 ≠ key

/-- A change to the entries of a table, which may depend on how the table came to be. -/
abbrev Change := Origin → Entries → Option Entries

/-- Change the table that a path of tables leads to. Tables that are missing on
the way are made, with the given origin; a dotted key leads through no table
with a header. -/
def descend (made : Origin) (change : Change) : List String → Change
  | [], origin, entries => change origin entries
  | key :: path, _, entries =>
    match List.lookup key entries with
    | none => do
      let inner ← descend made change path made []
      pure (entries ++ [(key, .table made inner)])
    | some (.value _) => none
    | some (.table origin inner) =>
      if made = .dottedKey ∧ origin = .header then none
      else do
        let inner ← descend made change path origin inner
        pure (replace key (.table origin inner) entries)
    | some (.tables finished inner) => do
      let inner ← descend made change path .header inner
      pure (replace key (.tables finished inner) entries)

/-- Add an entry that is not there yet. -/
def add (key : String) (value : Value) (entries : Entries) : Option Entries :=
  if (List.lookup key entries).isSome then none else some (entries ++ [(key, .value value)])

/-- The line `path = value` under a table. The table that the entry goes into was
made by dotted keys exactly if the key is dotted. -/
def assign (path : Path) (value : Value) : Change :=
  descend .dottedKey (fun origin entries =>
    if origin = .dottedKey ↔ path.tables = [] then none else add path.key value entries)
    path.tables

/-- The header of a table. -/
def openTable (path : Path) : Change :=
  descend .headerPath (fun _ entries =>
    match List.lookup path.key entries with
    | none => some (entries ++ [(path.key, .table .header [])])
    | some (.table .headerPath inner) =>
      some (erase path.key entries ++ [(path.key, .table .header inner)])
    | some _ => none)
    path.tables

/-- The header of one more table of an array. -/
def openElement (path : Path) : Change :=
  descend .headerPath (fun _ entries =>
    match List.lookup path.key entries with
    | none => some (entries ++ [(path.key, .tables [] [])])
    | some (.tables finished inner) =>
      some (replace path.key (.tables (finished ++ [.table (Node.finish inner)]) []) entries)
    | some _ => none)
    path.tables

/-- The entries that lines of assignments make on their own. -/
def ofAssignments (assignments : List (Path × Value)) : Option Entries :=
  assignments.foldlM (fun entries (path, value) => assign path value .header entries) []

end Entries

end Strata.Toml
