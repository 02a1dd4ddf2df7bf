import Strata.Encoding
import Strata.Script

/-!
# External configuration

Configuration that is supplied from outside for a module, in entries. An entry
acts like a rule that always applies and depends on nothing; its priority alone
decides where it stands. Without one it stands below every priority.
-/

namespace Strata

/-- One piece of external configuration. -/
structure Entry where
  priority : Option Binary64 := none
  config : Json

namespace Entry

/-- The priority that places an entry; minus infinity if none is given. -/
def effectivePriority (entry : Entry) : Binary64 :=
  entry.priority.getD .negInfinity

/-- What an entry contributes; null contributes an empty object. -/
def fragment (entry : Entry) : Json :=
  match entry.config with
  | .null => .empty
  | config => config

/-- An entry is an object with a `config`, whose other fields than `priority` do
not matter, or the array of its priority and its configuration. -/
def ofJson? : Json → Option Entry
  | .object fields => do
    let priority ← Json.optionalNumber? (Fields.get? "priority" fields)
    let config ← Fields.get? "config" fields
    pure { priority, config }
  | .array [priority, config] => do
    let priority ← Json.optionalNumber? (some priority)
    pure { priority, config }
  | _ => none

end Entry

/-- Who supplies entries: a fixed table, or someone who answers later. -/
inductive Provider
  | fixed (entries : Fields (List Entry))
  | deferred (answer : String → Outcome (Option (List Entry)))

/-- The entries of a module, if the provider has any for it. -/
def Provider.entries (provider : Provider) (moduleId : String) : Script (Option (List Entry)) :=
  match provider with
  | .fixed entries => pure (Fields.get? moduleId entries)
  | .deferred answer => .pause (.externalNotReady moduleId) (.finish (answer moduleId))

/-- The entries of a module, from a provider that does not take time to answer. -/
def Provider.entriesReady (provider : Provider) (moduleId : String) :
    Outcome (Option (List Entry)) :=
  match provider with
  | .fixed entries => .ok (Fields.get? moduleId entries)
  | .deferred _ => .error (.externalNotReady moduleId)

/-- A table with one more entry, behind those of its module. -/
def Provider.append (entries : Fields (List Entry)) (moduleId : String) (entry : Entry) :
    Fields (List Entry) :=
  Fields.put moduleId ((Fields.get? moduleId entries).getD [] ++ [entry]) entries

end Strata
