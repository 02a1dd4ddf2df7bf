import Strata.Digest
import Strata.Engine

/-!
# Reports

An explanation together with what was asked and what came of it, as JSON text
and as lines for a reader. The digest of the result is that of its canonical
text, so equal results have equal digests.
-/

namespace Strata

structure Report where
  /-- The module id as it was requested. -/
  requested : String
  inherit : Bool
  context : Context
  explanation : Explanation
  /-- The merged configuration, if anything matched. -/
  result : Option Json

namespace Report

/-- The format of the JSON text. -/
def schemaId : String := "cascade/explain@1"

/-- The report on an explanation, if its fragments merge. -/
def ofExplanation (query : Query) (context : Context) (explanation : Explanation) :
    Outcome Report := do
  let result ← explanation.result
  pure { requested := query.moduleId, inherit := query.inherit, context, explanation, result }

/-- The digest of the result, if there is one. -/
def digest? (report : Report) : Option String :=
  report.result.map Digest.ofJson

/-- The report as a JSON value whose fields are in the order in which they are written. -/
def toJson (report : Report) : Json :=
  .object ([("schema_id", .text schemaId), ("requested", .text report.requested),
      ("inherit", .boolean report.inherit), ("context", report.context.toJson)]
    ++ report.explanation.fields
    ++ [("result", report.result.getD .null)]
    ++ report.digest?.toList.map (fun digest => ("result_digest", .text digest)))

/-- Priorities are written to a reader without an exponent, however long they
get, and of two nearest decimals the greater in magnitude is written. -/
def priorityLayout : Binary64.Layout where
  positional _ := true
  keepsFraction := false
  signsZero := true
  tie := .awayFromZero

def priorityText (priority : Binary64) : String :=
  if priority.isFinite then priorityLayout.render priority
  else if priority.isNaN then "NaN"
  else if priority.isNegative then "-inf"
  else "inf"

/-- Where a fragment came from, in words. -/
def originText : Origin → String
  | .rule moduleId contextId priority specificity ordinal deps =>
    "rule on " ++ moduleId ++ " [priority " ++ priorityText priority ++ ", specificity "
      ++ toString specificity ++ ", #" ++ toString ordinal ++ "]"
      ++ (match contextId with
        | some id => " from " ++ id
        | none => "")
      ++ (if deps.isEmpty then "" else " deps: " ++ ", ".intercalate deps)
  | .external moduleId index priority =>
    "external #" ++ toString index ++ " for " ++ moduleId ++ " [priority "
      ++ priorityText priority ++ "]"

/-- The two lines of the contribution with the given number. -/
def contributionLines (number : Nat) (contribution : Contribution) : List String :=
  ["  " ++ toString number ++ ". " ++ originText contribution.origin,
    "     " ++ contribution.fragment.compact]

/-- The lines for a reader. -/
def lines (report : Report) : List String :=
  let explanation := report.explanation
  let heading :=
    ["Module: " ++ explanation.moduleId ++ " (requested as " ++ report.requested ++ ")"]
    ++ explanation.annotationId.toList.map (fun id => "Annotation: " ++ id)
    ++ ["Chain: " ++ " -> ".intercalate explanation.chain, ""]
  if explanation.contributions.isEmpty then heading ++ ["No rule matched."]
  else
    heading ++ ["Contributions (merged in this order, last wins):"]
      ++ (explanation.contributions.zipIdx 1).flatMap (fun (contribution, number) =>
        contributionLines number contribution)
      ++ ["", "Result: " ++ (report.result.getD .null).compact]

/-- The report for a reader. -/
def text (report : Report) : String :=
  "\n".intercalate report.lines

end Report

end Strata
