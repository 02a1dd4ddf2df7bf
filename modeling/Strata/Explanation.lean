import Strata.External
import Strata.Merge

/-!
# Explanations

The fragments of a resolution in the order in which they are merged, each with
where it came from and why it stands where it does.
-/

namespace Strata

/-- Where a fragment came from. -/
inductive Origin
  /-- A rule found under the module id `moduleId`. -/
  | rule (moduleId : String) (contextId : Option String) (priority : Binary64)
    (specificity ordinal : Nat) (deps : List String)
  /-- The entry of an external answer that has this index. -/
  | external (moduleId : String) (index : Nat) (priority : Binary64)

/-- A fragment and its origin. -/
structure Contribution where
  origin : Origin
  fragment : Json

/-- All that a request was resolved from. -/
structure Explanation where
  moduleId : String
  annotationId : Option String
  /-- The ids that were asked for, most general first. -/
  chain : List String
  contributions : List Contribution

/-- A priority in an explanation: a number, or a text for an infinity. -/
def Binary64.toJson (priority : Binary64) : Json :=
  if priority.isFinite then .real priority
  else if priority.isNegative then .text "-inf"
  else .text "inf"

namespace Contribution

/-- The fields of a contribution, in the order in which they are written. -/
def fields (contribution : Contribution) : List (String × Json) :=
  match contribution.origin with
  | .rule moduleId contextId priority specificity ordinal deps =>
    [("source", .text "rule"), ("module_id", .text moduleId)]
      ++ contextId.toList.map (fun id => ("context_id", .text id))
      ++ [("priority", priority.toJson), ("specificity", .integer specificity),
        ("ordinal", .integer ordinal)]
      ++ (if deps.isEmpty then [] else [("deps", Json.texts deps)])
      ++ [("fragment", contribution.fragment)]
  | .external moduleId index priority =>
    [("source", .text "external"), ("module_id", .text moduleId), ("index", .integer index),
      ("priority", priority.toJson), ("fragment", contribution.fragment)]

end Contribution

namespace Explanation

/-- The fragments in the order in which they are merged. -/
def fragments (explanation : Explanation) : List Json :=
  explanation.contributions.map Contribution.fragment

/-- The merged fragments, or nothing if there are none. -/
def result (explanation : Explanation) : Outcome (Option Json) :=
  mergeFragments explanation.fragments

/-- The fields of an explanation, in the order in which they are written. -/
def fields (explanation : Explanation) : List (String × Json) :=
  [("module_id", .text explanation.moduleId)]
    ++ explanation.annotationId.toList.map (fun id => ("annotation_id", .text id))
    ++ [("chain", Json.texts explanation.chain),
      ("contributions",
        .array (explanation.contributions.map fun contribution => .object contribution.fields))]

def toJson (explanation : Explanation) : Json :=
  .object explanation.fields

end Explanation

end Strata
