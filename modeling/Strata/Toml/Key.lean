import Strata.Toml.Quoted

/-!
# Keys

A key is bare, made of ASCII letters, digits, underscores and hyphens, or a
string on one line. Keys joined by dots are a path; the last part names an
entry, and the parts before it name the tables that lead there.
-/

namespace Strata.Toml

open Reader

/-- A path to an entry: the tables that lead there, and its key in the last one. -/
structure Path where
  tables : List String
  key : String
  deriving DecidableEq, Repr

/-- The most parts that a path may have. -/
def maxPathLength : Nat := 79

def isBareKeyChar (c : Char) : Bool :=
  c.isAlphanum || c = '_' || c = '-'

/-- One part of a path. -/
def simpleKey : Reader String
  | '"' :: rest => lineString '"' rest
  | '\'' :: rest => lineString '\'' rest
  | cs => do
    let (characters, rest) ← takeWhile isBareKeyChar cs
    if characters.isEmpty then none else some (String.ofList characters, rest)

/-- A path of at most so many parts, blanks around each part allowed. -/
def pathUpTo : Nat → Reader Path
  | 0 => failure
  | limit + 1 => do
    blanks
    let part ← simpleKey
    blanks
    if ← next '.' then
      let rest ← pathUpTo limit
      pure ⟨part :: rest.tables, rest.key⟩
    else pure ⟨[], part⟩

def path : Reader Path :=
  pathUpTo maxPathLength

end Strata.Toml
