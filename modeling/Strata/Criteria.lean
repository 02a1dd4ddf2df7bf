import Strata.Dimensions

/-!
# Criteria

What a rule applies to once its selector has been made valid, and when it
answers a request. A rule that names annotations and one that does not never
answer the same request. The module itself is not compared here: rules are
found under their modules.

The specificity of criteria counts the dimensions that they constrain, by
weight. Since every constraint of a matching rule is met, it is the same for
all requests that the rule answers.
-/

namespace Strata

/-- What a rule applies to, valid and with canonical ids. -/
structure Criteria where
  /-- Canonical module ids, each once, in the order of first mention. -/
  modules : List String
  dimensions : Dimensions
  annotationIds : Option Accepted
  deriving DecidableEq, Repr

/-- What is asked: a module in a context, or an annotation on it. -/
structure Request where
  context : Context
  annotationId : Option String := none
  deriving DecidableEq, Repr

namespace Criteria

/-- The field of the annotation ids, if there are any. -/
def annotationField (ids : Option Accepted) : List (String × Json) :=
  ids.toList.map fun accepted => ("annotation", accepted.toJson)

def toJson (criteria : Criteria) : Json :=
  .object (("module", Json.texts criteria.modules) :: criteria.dimensions.fields
    ++ annotationField criteria.annotationIds)

/-- A rule for annotations answers requests for one of them and no others; a
rule without answers only requests for the module itself. -/
def annotationMatches : Option Accepted → Option String → Bool
  | none, none => true
  | some accepted, some requested => accepted.contains requested
  | _, _ => false

/-- Whether a constraint on a dimension is met. An absent constraint always is,
and an absent value meets no other. -/
def dimensionMatches : Option Accepted → Option Accepted → Bool
  | none, _ => true
  | some _, none => false
  | some accepted, some actual => accepted.intersects actual

/-- Whether a rule with these criteria, found under the module, answers the request. -/
def answers (criteria : Criteria) (request : Request) : Bool :=
  annotationMatches criteria.annotationIds request.annotationId
    && Dimension.all.all fun dimension =>
      dimensionMatches (criteria.dimensions.get dimension) (request.context.get dimension)

/-- The weights of all constrained dimensions together. -/
def specificity (criteria : Criteria) : Nat :=
  (Dimension.all.filter fun dimension => (criteria.dimensions.get dimension).isSome).foldr
    (fun dimension total => dimension.weight + total) 0

end Criteria

end Strata
