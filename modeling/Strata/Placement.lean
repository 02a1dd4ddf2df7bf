import Strata.Binary64

/-!
# Placing external entries

External entries are put among rules that are already in order, and move none of
them. An entry goes right behind the last rule whose priority is below its own,
or not above it if external entries win ties; if there is no such rule it goes
in front. Entries that meet at one slot are in ascending priority, then in the
order in which they were supplied.
-/

namespace Strata

/-- Who is merged last when a rule and an external entry share a priority. -/
inductive TieBreak
  | internalWins
  | externalWins
  deriving DecidableEq, Repr

namespace TieBreak

def name : TieBreak → String
  | .internalWins => "internal_wins"
  | .externalWins => "external_wins"

def ofName? (text : String) : Option TieBreak :=
  if text = "internal_wins" then some .internalWins
  else if text = "external_wins" then some .externalWins
  else none

end TieBreak

namespace Placement

variable {α β : Type}

/-- Whether a rule of priority `rule` keeps an entry of priority `entry` behind it. -/
def holdsBack (ties : TieBreak) (entry rule : Binary64) : Bool :=
  match ties with
  | .internalWins => rule.numericLt entry
  | .externalWins => rule.numericLe entry

/-- How many of the rules an entry goes behind. -/
def slot (ties : TieBreak) (rules : List Binary64) (entry : Binary64) : Nat :=
  rules.length - (rules.reverse.takeWhile fun rule => !holdsBack ties entry rule).length

/-- An entry with the slot and the priority that order it. -/
structure Placed (β : Type) where
  slot : Nat
  priority : Binary64
  entry : β

/-- Slots first, then priorities. -/
def Placed.le (x y : Placed β) : Bool :=
  ((compare x.slot y.slot).then (x.priority.compareTotal y.priority)).isLE

/-- The rules, from the one at `position` on, with the entries at their slots. -/
def weave (position : Nat) : List α → List (Placed β) → List (α ⊕ β)
  | [], placed => placed.map fun p => .inr p.entry
  | rule :: rest, placed =>
    (placed.takeWhile fun p => p.slot = position).map (fun p => .inr p.entry)
      ++ .inl rule
      :: weave (position + 1) rest (placed.dropWhile fun p => p.slot = position)

/-- Rules and entries in one sequence, given the priorities of both. -/
def interleave (ties : TieBreak) (rulePriority : α → Binary64) (entryPriority : β → Binary64)
    (rules : List α) (entries : List β) : List (α ⊕ β) :=
  let place (entry : β) : Placed β :=
    ⟨slot ties (rules.map rulePriority) (entryPriority entry), entryPriority entry, entry⟩
  weave 0 rules ((entries.map place).mergeSort Placed.le)

end Placement

end Strata
