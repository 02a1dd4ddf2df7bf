import Strata.Engine
import Strata.Registry

/-!
# Manifests

All that an engine is made of, as a cascade file describes it: a context and
options, modules with aliases and prefix mappings, dependency values, external
entries, and sets of rules with fixed fragments.

Modules may be listed in any order. `parentsFirst` is the order in which they
are registered: time and again the first module that descends from none of those
still listed, and the first of all when there is none, which registration then
refuses.
-/

namespace Strata

/-- The ancestor of a type, or the type of an instance. -/
def Descriptor.parent? (descriptor : Descriptor) : Option String :=
  match descriptor.kind with
  | .typeModule => descriptor.ancestor
  | .instanceModule => descriptor.typeId

/-- Register a module as described. An instance without a type has the empty type id. -/
def Registry.add (registry : Registry) (descriptor : Descriptor) : Outcome Registry :=
  match descriptor.kind with
  | .typeModule => registry.addType descriptor.id descriptor.ancestor
  | .instanceModule => registry.addInstance descriptor.id (descriptor.typeId.getD "")

structure Manifest where
  context : Context := {}
  options : Options := {}
  modules : List Descriptor := []
  /-- Canonical ids by alias. -/
  aliases : Fields String := []
  /-- Replacements by id prefix. -/
  namespaces : Fields String := []
  /-- Dependency values by id. -/
  values : Fields Json := []
  /-- External entries, each with the id of its module. -/
  external : List (String × Entry) := []
  ruleSets : List RuleSet := []

namespace Manifest

/-! ## Modules -/

/-- Whether a module descends from none of those listed. -/
def isReady (listed : List Descriptor) (descriptor : Descriptor) : Bool :=
  descriptor.parent?.all fun parent => listed.all fun other => other.id ≠ parent

/-- The modules in the order in which they are registered. -/
def parentsFirst : List Descriptor → List Descriptor
  | [] => []
  | first :: rest =>
    match _found : (first :: rest).find? (isReady (first :: rest)) with
    | some ready => ready :: parentsFirst ((first :: rest).eraseP (isReady (first :: rest)))
    | none => first :: parentsFirst rest
termination_by listed => listed.length
decreasing_by
  · have shorter := List.length_eraseP_of_mem (List.mem_of_find?_eq_some _found)
      (List.find?_some _found)
    simp only [List.length_cons] at shorter ⊢
    omega
  · simp

/-- What is found first and what is left without it are all there is. -/
theorem cons_eraseP_perm {α : Type} {test : α → Bool} {items : List α} {first : α}
    (found : items.find? test = some first) : (first :: items.eraseP test).Perm items := by
  obtain ⟨passes, before, behind, rfl, fails⟩ := List.find?_eq_some_iff_append.1 found
  have skipped : ∀ item ∈ before, ¬ test item = true := fun item member => by
    simpa using fails item member
  rw [List.eraseP_append_right _ skipped, List.eraseP_cons_of_pos passes]
  exact List.perm_middle.symm

/-- The order of registration leaves out no module and repeats none. -/
theorem parentsFirst_perm (listed : List Descriptor) : (parentsFirst listed).Perm listed := by
  fun_induction parentsFirst listed with
  | case1 => exact .nil
  | case2 first rest ready found ih => exact (ih.cons ready).trans (cons_eraseP_perm found)
  | case3 first rest _ ih => exact ih.cons first

/-- The registry of the modules with their aliases and prefix mappings. -/
def registry (manifest : Manifest) : Outcome Registry := do
  let registry ← (parentsFirst manifest.modules).foldlM Registry.add {}
  let registry ← manifest.aliases.foldlM (fun registry (id, target) => registry.addAlias id target)
    registry
  manifest.namespaces.foldlM (fun registry (start, target) => registry.addNamespace start target)
    registry

/-! ## The engine -/

/-- The external entries by module id, each module's in the order of the manifest. -/
def entriesByModule (manifest : Manifest) : Fields (List Entry) :=
  manifest.external.foldl (fun entries (moduleId, entry) =>
    Provider.append entries moduleId entry) []

/-- The number of rules in all sets. -/
def ruleCount (manifest : Manifest) : Nat :=
  (manifest.ruleSets.flatMap RuleSet.rules).length

/-- The engine that a manifest describes, in its context overlaid with another. -/
def engine (manifest : Manifest) (overrides : Context) : Outcome Engine := do
  let registry ← manifest.registry
  let engine : Engine := {
    context := manifest.context.overlay overrides
    options := manifest.options
    metadata := registry.metadata
    sources := Fields.mapValues Source.ready manifest.values
    provider := some (.fixed manifest.entriesByModule) }
  manifest.ruleSets.foldlM Engine.add engine

end Manifest

end Strata
