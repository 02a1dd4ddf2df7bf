import Strata.Criteria
import Strata.Fault

/-!
# Selectors

What a rule applies to: module ids, values per dimension, and possibly
annotation ids. A selector is as its author wrote it, with module entries that
may be null or empty. `criteria` makes it valid: all entries are checked before
any id is canonicalized, module entries before annotation entries, and then the
ids are canonicalized in that order. Canonicalization may fail and may have
effects, so it runs in any monad with faults.
-/

namespace Strata

/-- What a rule applies to, as written. -/
structure Selector where
  modules : List (Option String) := []
  dimensions : Dimensions := {}
  annotationIds : Option Accepted := none
  deriving DecidableEq, Repr, Inhabited

namespace Selector

/-! ## Documents -/

/-- The names of the fields, in the order in which they are written. -/
def fieldNames : List String := "module" :: Dimensions.fieldNames ++ ["annotation"]

def toJson (selector : Selector) : Json :=
  let entry (id : Option String) : Json := (id.map Json.text).getD .null
  .object (("module", .array (selector.modules.map entry)) :: selector.dimensions.fields
    ++ Criteria.annotationField selector.annotationIds)

/-- A module entry. -/
def idOrNull? : Json → Option (Option String)
  | .null => some none
  | .text id => some (some id)
  | _ => none

/-- The module entries: one entry alone or an array of them. -/
def entries? : Json → Option (List (Option String))
  | .array items => items.mapM idOrNull?
  | value => (idOrNull? value).map fun id => [id]

def ofJson? (encoding : Encoding) (value : Json) : Option Selector := do
  let record ← encoding.record? fieldNames value
  let modules ← match Fields.get? "module" record with
    | none => some []
    | some value => entries? value
  let dimensions ← Dimensions.ofFields? record
  let annotationIds ← Accepted.optional? (Fields.get? "annotation" record)
  pure { modules, dimensions, annotationIds }

/-! ## Normalization -/

/-- The module ids from the given index on, if none is null or empty. -/
def checkModules (index : Nat) : List (Option String) → Outcome (List String)
  | [] => .ok []
  | none :: _ => .error (.moduleEntryEmpty index)
  | some id :: rest =>
    if id = "" then .error (.moduleEntryEmpty index)
    else do
      let ids ← checkModules (index + 1) rest
      pure (id :: ids)

/-- Refuses an empty annotation id, from the given index on. -/
def checkAnnotations (index : Nat) : List String → Outcome Unit
  | [] => .ok ()
  | id :: rest =>
    if id = "" then .error (.annotationEntryEmpty index) else checkAnnotations (index + 1) rest

/-- The module ids of a selector without empty entries. -/
def check (selector : Selector) : Outcome (List String) :=
  match selector.modules with
  | [] => .error .selectorWithoutModule
  | entries => do
    let ids ← checkModules 0 entries
    match selector.annotationIds with
    | none => pure ()
    | some accepted => checkAnnotations 0 accepted.values
    pure ids

section Canonical

variable {m : Type → Type} [Monad m] [MonadExceptOf Fault m]

/-- The annotation ids, if there are any, passed through `canonicalize`. -/
def canonicalAnnotations (canonicalize : String → m String) :
    Option Accepted → m (Option Accepted)
  | none => pure none
  | some accepted => do
    let values ← accepted.values.mapM canonicalize
    pure (some ⟨values⟩)

/-- The criteria of a selector, its ids passed through `canonicalize`. -/
def criteria (selector : Selector) (canonicalize : String → m String) : m Criteria := do
  let ids ← Outcome.lift selector.check
  let modules ← ids.mapM canonicalize
  let annotationIds ← canonicalAnnotations canonicalize selector.annotationIds
  pure { modules := modules.eraseDups, dimensions := selector.dimensions, annotationIds }

end Canonical

end Selector

end Strata
