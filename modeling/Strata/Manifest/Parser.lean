import Strata.Digest
import Strata.Manifest
import Strata.Toml.Document

/-!
# Reading manifests

A manifest is the table of a TOML document. Every record in it has fixed field
names, and other names are refused; records may also be written as arrays, as
records are in TOML. Values, external configuration and the fragments of rules
are taken over as configuration.
-/

namespace Strata

namespace Toml.Value

/-- An array of which every item can be read. -/
def list? {α : Type} (read : Value → Option α) (value : Value) : Option (List α) :=
  value.items?.bind fun items => items.mapM read

/-- A table of which every entry can be read, by key. -/
def map? {α : Type} (read : Value → Option α) (value : Value) : Option (Fields α) := do
  let entries ← value.entries?
  let entries ← entries.mapM fun (key, value) => (read value).map fun value => (key, value)
  pure (Fields.ofList entries)

/-- A field that has to be there. -/
def required? {α : Type} (read : Value → Option α) (key : String)
    (fields : List (String × Value)) : Option α :=
  (List.lookup key fields).bind read

/-- A field that may be missing. -/
def optional? {α : Type} (read : Value → Option α) (key : String)
    (fields : List (String × Value)) : Option (Option α) :=
  match List.lookup key fields with
  | none => some none
  | some value => (read value).map some

/-- A field with a default. -/
def default? {α : Type} (read : Value → Option α) (standard : α) (key : String)
    (fields : List (String × Value)) : Option α :=
  (optional? read key fields).map fun value => value.getD standard

end Toml.Value

namespace Manifest

open Toml.Value

def kind? (value : Toml.Value) : Option ModuleKind :=
  (Encoding.toml.choice? value.document).bind ModuleKind.ofName?

def module? (value : Toml.Value) : Option Descriptor := do
  let fields ← value.fields? ["id", "kind", "ancestor", "type"]
  let id ← required? string? "id" fields
  let kind ← default? kind? .typeModule "kind" fields
  let ancestor ← optional? string? "ancestor" fields
  let typeId ← optional? string? "type" fields
  pure { id, kind, ancestor, typeId }

def externalEntry? (value : Toml.Value) : Option (String × Entry) := do
  let fields ← value.fields? ["module", "priority", "config"]
  let moduleId ← required? string? "module" fields
  let priority ← optional? number? "priority" fields
  let config ← required? toJson? "config" fields
  pure (moduleId, { priority, config })

def rule? (value : Toml.Value) : Option RuleSpec := do
  let fields ← value.fields? ["priority", "select", "deps", "apply"]
  let priority ← default? number? .zero "priority" fields
  let select ← required? (fun select => Selector.ofJson? .toml select.document) "select" fields
  let deps ← default? (list? string?) [] "deps" fields
  let fragment ← default? toJson? .empty "apply" fields
  pure { priority, select, deps, apply := .fixed fragment }

def ruleSet? (value : Toml.Value) : Option RuleSet := do
  let fields ← value.fields? ["context_id", "rules"]
  let contextId ← optional? string? "context_id" fields
  let rules ← default? (list? rule?) [] "rules" fields
  pure { contextId, rules }

/-- The manifest that a document denotes. -/
def ofToml? (value : Toml.Value) : Option Manifest := do
  let fields ← value.fields? ["context", "options", "modules", "aliases", "namespaces",
    "values", "external", "rule_sets"]
  let context ← default? (fun context => Context.ofJson? .toml context.document) {} "context" fields
  let options ← default? (fun options => Options.ofJson? .toml options.document) {} "options" fields
  let modules ← default? (list? module?) [] "modules" fields
  let aliases ← default? (map? string?) [] "aliases" fields
  let namespaces ← default? (map? string?) [] "namespaces" fields
  let values ← default? (map? toJson?) [] "values" fields
  let external ← default? (list? externalEntry?) [] "external" fields
  let ruleSets ← default? (list? ruleSet?) [] "rule_sets" fields
  pure { context, options, modules, aliases, namespaces, values, external, ruleSets }

/-- The manifest that a text denotes. -/
def parse? (text : String) : Option Manifest :=
  (Toml.parse? text).bind ofToml?

/-- The manifest in the bytes of a file, if they are UTF-8 and denote one. -/
def ofBytes? (bytes : ByteArray) : Option Manifest :=
  (String.fromUTF8? bytes).bind parse?

end Manifest

end Strata
