import Strata.Toml.Value.Parser

/-!
# TOML documents

A document is a sequence of lines: headers of tables and of elements of arrays
of tables, assignments to the table whose header came last, and blank lines and
comments in between. Before the first header the table is the document itself.
A byte order mark at the start of the text is skipped.
-/

namespace Strata.Toml

open Reader

/-- A line that says something. -/
inductive Statement
  | tableHeader (path : Path)
  | elementHeader (path : Path)
  | assignment (path : Path) (value : Value)

namespace Statement

/-- The path in a header, up to the brackets that close it. -/
def header (closing : List Char) : Reader Path := do
  let path ← path
  word closing
  pure path

/-- The statement at the front. -/
def read : Reader Statement
  | '[' :: '[' :: rest => (Statement.elementHeader <$> header [']', ']']) rest
  | '[' :: rest => (Statement.tableHeader <$> header [']']) rest
  | cs => ((fun line => Statement.assignment line.1 line.2) <$> Value.assignment Value.read) cs

/-- All statements that are left; the fuel bounds the number of lines. -/
def readAll : Nat → Reader (List Statement)
  | 0 => failure
  | fuel + 1 => do
    blanks
    match ← peek with
    | none => pure []
    | some c =>
      if c = '#' || c = '\n' || c = '\r' then
        lineEnd
        readAll fuel
      else
        let statement ← read
        lineEnd
        (statement :: ·) <$> readAll fuel

end Statement

/-- A document as far as its statements have been carried out. -/
structure Draft where
  /-- The path of the table that assignments go to; none before the first header. -/
  current : List String := []
  entries : Entries := []

namespace Draft

def apply (draft : Draft) : Statement → Option Draft
  | .tableHeader path => do
    let entries ← Entries.openTable path .header draft.entries
    pure ⟨path.tables ++ [path.key], entries⟩
  | .elementHeader path => do
    let entries ← Entries.openElement path .header draft.entries
    pure ⟨path.tables ++ [path.key], entries⟩
  | .assignment path value => do
    let change : Entries.Change := fun _ entries => Entries.assign path value .header entries
    let entries ← Entries.descend .headerPath change draft.current .header draft.entries
    pure { draft with entries }

end Draft

/-- The statements of a text, if it is a sequence of them. -/
def statements? (text : String) : Option (List Statement) :=
  let cs := text.toList
  let cs := if cs.head? = some '\ufeff' then cs.tail else cs
  match Statement.readAll (cs.length + 1) cs with
  | some (statements, []) => some statements
  | _ => none

/-- The table that a document denotes. -/
def parse? (text : String) : Option Value := do
  let statements ← statements? text
  let draft ← statements.foldlM Draft.apply {}
  pure (.table (Node.finish draft.entries))

end Strata.Toml
