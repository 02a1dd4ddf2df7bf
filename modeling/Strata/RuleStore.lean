import Strata.Rule

/-!
# The rule store

Registered rules under every module id that they select, for each id in
ascending order of precedence. Rules are only ever added, and each takes the
next ordinal; so a new rule goes behind all rules of its priority and
specificity.
-/

namespace Strata

/-- Rules by module id. -/
structure RuleStore where
  byModule : Fields (List Registered) := []
  /-- How many rules have been registered. -/
  size : Nat := 0

namespace RuleStore

/-- The first position from `low` on, and before `high` if there is one, at which
`holds` fails. It is found by halving, and is the first because `holds` does not
hold again once it has failed. -/
def boundary (holds : Nat → Bool) (low high : Nat) : Nat :=
  if low < high then
    let middle := low + (high - low) / 2
    if holds middle then boundary holds (middle + 1) high else boundary holds low middle
  else low
termination_by high - low

theorem boundary_bounds (holds : Nat → Bool) {low high : Nat} (le : low ≤ high) :
    low ≤ boundary holds low high ∧ boundary holds low high ≤ high := by
  fun_induction boundary holds low high with
  | case1 low high less middle held ih =>
    have within : middle + 1 ≤ high := by omega
    have := ih within
    omega
  | case2 low high less middle failed ih =>
    have within : low ≤ middle := by omega
    have := ih within
    omega
  | case3 low high done => omega

/-- Whether the rule at a position does not come after a new one. -/
def staysBefore (new : Registered) (rules : List Registered) (position : Nat) : Bool :=
  rules[position]?.any fun old => old.precedence.le new.precedence

/-- The position of a new rule in an ascending list: behind everything that does
not come after it. -/
def position (new : Registered) (rules : List Registered) : Nat :=
  boundary (staysBefore new rules) 0 rules.length

/-- A rule put at its position. -/
def place (new : Registered) (rules : List Registered) : List Registered :=
  rules.take (position new rules) ++ new :: rules.drop (position new rules)

theorem place_perm (new : Registered) (rules : List Registered) :
    (place new rules).Perm (new :: rules) := by
  have moved : (place new rules).Perm
      (new :: (rules.take (position new rules) ++ rules.drop (position new rules))) :=
    List.perm_middle
  rw [List.take_append_drop] at moved
  exact moved

/-- The rules that select a module, in the order in which they are merged. -/
def rulesFor (store : RuleStore) (moduleId : String) : List Registered :=
  (Fields.get? moduleId store.byModule).getD []

/-- The index with a rule added under one module id. -/
def index (new : Registered) (byModule : Fields (List Registered)) (moduleId : String) :
    Fields (List Registered) :=
  Fields.put moduleId (place new ((Fields.get? moduleId byModule).getD [])) byModule

/-- The store with one more rule. -/
def insert (store : RuleStore) (rule : Rule) : RuleStore :=
  let new : Registered := ⟨rule, store.size⟩
  { byModule := rule.criteria.modules.foldl (index new) store.byModule
    size := store.size + 1 }

/-- The module ids that some rule selects, in order. -/
def moduleIds (store : RuleStore) : List String :=
  Fields.keys store.byModule

end RuleStore

end Strata
