import Strata.Reference
import Strata.Script

/-!
# Dependency values

Values that rules depend on, by id: given outright or loaded when first needed.
References to them are resolved one after the other in the order in which they
are listed, and the first that cannot be resolved ends the resolution. A resolution
that cannot wait takes what is given outright or loaded already, and refuses the rest.
-/

namespace Strata

/-- Where a value comes from. -/
inductive Source
  | ready (value : Json)
  | onDemand (loader : Loader)

/-- The values that can be depended on. -/
abbrev Sources := Fields Source

namespace Sources

/-- Whether a value can be had without waiting. -/
def isLoaded (sources : Sources) (cells : Cells) (id : String) : Bool :=
  match Fields.get? id sources with
  | none => false
  | some (.ready _) => true
  | some (.onDemand _) => (cells.value? id).isSome

/-- The value with an absolute id. -/
def lookup (sources : Sources) (id : String) : Script Json :=
  match Fields.get? id sources with
  | none => .finish (.error (.dependencyUndefined id))
  | some (.ready value) => pure value
  | some (.onDemand loader) => .load id loader pure

/-- The values of references made within a context, in their order. -/
def resolve (sources : Sources) (contextId : Option String) : List String → Script (List Json)
  | [] => pure []
  | reference :: rest => do
    let id ← Script.ofOutcome (Reference.resolve contextId reference)
    let value ← sources.lookup id
    let values ← sources.resolve contextId rest
    pure (value :: values)

/-- The value with an absolute id, from what is at hand. -/
def lookupReady (sources : Sources) (cells : Cells) (id : String) : Outcome Json :=
  match Fields.get? id sources with
  | none => .error (.dependencyUndefined id)
  | some (.ready value) => .ok value
  | some (.onDemand _) =>
    match cells.value? id with
    | some value => .ok value
    | none => .error (.dependencyNotLoaded id)

/-- The values of references made within a context, in their order, from what is at hand. -/
def resolveReady (sources : Sources) (cells : Cells) (contextId : Option String)
    (references : List String) : Outcome (List Json) :=
  references.mapM fun reference => do
    let id ← Reference.resolve contextId reference
    sources.lookupReady cells id

end Sources

end Strata
