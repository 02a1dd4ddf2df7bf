import Strata.Precedence
import Strata.Reference
import Strata.Selector

/-!
# Rules

A rule pairs what it applies to with what it contributes there: a fixed
fragment, or a function of the values of its dependencies. Rules are written in
sets; a set has a context id, which relative references of its rules start
from. Normalizing a rule resolves every id it mentions and passes it through
canonicalization: module ids first, then annotation ids, then dependencies.
-/

namespace Strata

/-- What a rule contributes. -/
inductive Apply
  | fixed (fragment : Json)
  /-- A function of the dependency values, in the order of the dependencies. -/
  | computed (compute : List Json → Option Json)

/-- The fragment that a rule contributes. A function that gives nothing or null
contributes an empty object; a fixed null stays null. -/
def Apply.fragment : Apply → List Json → Json
  | .fixed fragment, _ => fragment
  | .computed compute, values =>
    match compute values with
    | none => .empty
    | some .null => .empty
    | some fragment => fragment

/-- A rule as written. -/
structure RuleSpec where
  priority : Binary64 := .zero
  select : Selector
  /-- References to the values that the rule depends on. -/
  deps : List String := []
  apply : Apply

/-- Rules that are registered together. -/
structure RuleSet where
  contextId : Option String := none
  rules : List RuleSpec

/-- A valid rule whose ids are absolute and canonical. -/
structure Rule where
  criteria : Criteria
  deps : List String
  apply : Apply
  contextId : Option String
  priority : Binary64

namespace RuleSpec

/-- Refuses a priority that is no number. -/
def checkPriority (spec : RuleSpec) : Outcome Unit :=
  if spec.priority.isNaN then .error .priorityNotANumber else .ok ()

/-- The valid rule that a written rule stands for within a context. -/
def normalize {m : Type → Type} [Monad m] [MonadExceptOf Fault m]
    (spec : RuleSpec) (canonicalize : String → m String) (contextId : Option String) :
    m Rule := do
  Outcome.lift spec.checkPriority
  let absolute (reference : String) : m String := do
    let id ← Outcome.lift (Reference.resolve contextId reference)
    canonicalize id
  let criteria ← spec.select.criteria absolute
  let deps ← spec.deps.mapM absolute
  pure { criteria, deps, apply := spec.apply, contextId, priority := spec.priority }

end RuleSpec

/-- A rule with its place in the order of registration. -/
structure Registered where
  rule : Rule
  ordinal : Nat

/-- The place of a registered rule among others. -/
def Registered.precedence (registered : Registered) : Precedence where
  priority := registered.rule.priority
  specificity := registered.rule.criteria.specificity
  ordinal := registered.ordinal

end Strata
