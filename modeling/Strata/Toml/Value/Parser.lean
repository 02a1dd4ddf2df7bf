import Strata.Toml.Number
import Strata.Toml.Tree

/-!
# Reading values

An array may go over several lines, with comments between its items, and may
have a comma behind the last one. A table between braces stands on one line and
has no such comma. Either may be inside another, to a limited depth.
-/

namespace Strata.Toml

open Reader

/-- How many arrays and tables a value may be inside of. -/
def maxDepth : Nat := 79

namespace Value

def ofNumber : Number → Value
  | .integer value => .integer value
  | .float value => .float value

/-- A value that is no array and no table. -/
def scalar : Reader Value
  | '"' :: rest => (Value.string <$> quotedString '"') rest
  | '\'' :: rest => (Value.string <$> quotedString '\'') rest
  | 't' :: 'r' :: 'u' :: 'e' :: rest => some (.boolean true, rest)
  | 'f' :: 'a' :: 'l' :: 's' :: 'e' :: rest => some (.boolean false, rest)
  | cs => (Value.datetime <$> Datetime.read <|> ofNumber <$> number : Reader Value) cs

/-- The items of an array up to the closing bracket; the fuel bounds their number. -/
def itemsUpTo (item : Reader Value) : Nat → Reader (List Value)
  | 0 => failure
  | fuel + 1 => do
    layout false
    if ← next ']' then pure []
    else
      let value ← item
      layout false
      if ← next ',' then (value :: ·) <$> itemsUpTo item fuel
      else
        expect ']'
        pure [value]

/-- The rest of an array, its opening bracket read. -/
def arrayBody (item : Reader Value) : Reader Value
  | cs => (Value.array <$> itemsUpTo item (cs.length + 1)) cs

/-- A path and the value that is assigned to it, blanks around both allowed. -/
def assignment (item : Reader Value) : Reader (Path × Value) := do
  let path ← path
  expect '='
  blanks
  let value ← item
  blanks
  pure (path, value)

/-- Assignments up to the closing brace, at least one; the fuel bounds their number. -/
def assignmentsUpTo (item : Reader Value) : Nat → Reader (List (Path × Value))
  | 0 => failure
  | fuel + 1 => do
    let first ← assignment item
    if ← next ',' then (first :: ·) <$> assignmentsUpTo item fuel
    else
      expect '\x7d'
      pure [first]

/-- The rest of a table, its opening brace read. -/
def tableBody (item : Reader Value) : Reader Value := do
  blanks
  if ← next '\x7d' then pure (.table [])
  else
    let left ← get
    let assignments ← assignmentsUpTo item left.length
    match Entries.ofAssignments assignments with
    | some entries => pure (.table (Node.finish entries))
    | none => failure

/-- A value inside of which values may be nested to the given depth. -/
def within : Nat → Reader Value
  | 0 => scalar
  | depth + 1 => fun
    | '[' :: rest => arrayBody (within depth) rest
    | '\x7b' :: rest => tableBody (within depth) rest
    | cs => scalar cs

def read : Reader Value :=
  within maxDepth

end Value

end Strata.Toml
