import Strata.Fault

/-!
# Module metadata

What is known about modules: the canonical id of an id or alias, and a module's
kind and ancestor. Only finitely many modules are described, and the metadata
say which; so a walk up the ancestors either ends or comes back to an id that
it has passed.

The chain of a type runs from its most general ancestor down to itself. The
chain of an instance, or of a module that nothing is known about, is that
module alone: instances do not inherit from their type.
-/

namespace Strata

/-- Types may have an ancestor; instances have a type. -/
inductive ModuleKind
  | typeModule
  | instanceModule
  deriving DecidableEq, Repr

namespace ModuleKind

def name : ModuleKind → String
  | .typeModule => "type"
  | .instanceModule => "instance"

def ofName? (text : String) : Option ModuleKind :=
  if text = "type" then some .typeModule
  else if text = "instance" then some .instanceModule
  else none

end ModuleKind

/-- What is known about one module. -/
structure Descriptor where
  id : String
  kind : ModuleKind
  ancestor : Option String := none
  typeId : Option String := none
  deriving DecidableEq, Repr

def Descriptor.toJson (descriptor : Descriptor) : Json :=
  let optional (name : String) (id : Option String) : List (String × Json) :=
    id.toList.map fun id => (name, .text id)
  .object ([("id", .text descriptor.id), ("kind", .text descriptor.kind.name)]
    ++ optional "ancestor" descriptor.ancestor ++ optional "type_id" descriptor.typeId)

/-- A source of canonical ids and ancestry. -/
structure Metadata where
  /-- The canonical id of an id or alias that is known. -/
  canonical? : String → Option String
  /-- The descriptor of a canonical id that is known. -/
  describe? : String → Option Descriptor
  /-- The ids that are described, and possibly others. -/
  described : List String
  mem_described : ∀ id, (describe? id).isSome → id ∈ described

namespace Metadata

/-- The recorded ancestor of a module. -/
def ancestor? (metadata : Metadata) (id : String) : Option String :=
  (metadata.describe? id).bind Descriptor.ancestor

/-- The described ids that a chain has not passed. -/
def unpassed (metadata : Metadata) (chain : List String) : List String :=
  metadata.described.filter fun id => id ∉ chain

theorem unpassed_cons (metadata : Metadata) (chain : List String) (id : String) :
    metadata.unpassed (id :: chain) = (metadata.unpassed chain).filter (· ≠ id) := by
  simp [unpassed, List.filter_filter]

theorem unpassed_cons_le (metadata : Metadata) (chain : List String) (id : String) :
    (metadata.unpassed (id :: chain)).length ≤ (metadata.unpassed chain).length := by
  rw [unpassed_cons]
  exact List.length_filter_le _ _

theorem unpassed_cons_lt (metadata : Metadata) {chain : List String} {id : String}
    (known : id ∈ metadata.described) (new : id ∉ chain) :
    (metadata.unpassed (id :: chain)).length < (metadata.unpassed chain).length := by
  rw [unpassed_cons]
  apply List.length_filter_lt_length_iff_exists.2
  exact ⟨id, by simp [unpassed, known, new], by simp⟩

/-- The chain with the ancestors from `next` on put in front, one by one. `id` is
where the walk began. -/
def walk (metadata : Metadata) (id : String) (chain : List String) :
    Option String → Outcome (List String)
  | none => .ok chain
  | some ancestor =>
    if ancestor ∈ chain then .error (.ancestryCyclic id ancestor)
    else metadata.walk id (ancestor :: chain) (metadata.ancestor? ancestor)
termination_by next => (metadata.unpassed chain).length + if next.isSome then 1 else 0
decreasing_by
  rename_i new
  cases above : metadata.ancestor? ancestor with
  | none =>
    have := metadata.unpassed_cons_le chain ancestor
    simp
    omega
  | some _ =>
    have known : ancestor ∈ metadata.described := by
      apply metadata.mem_described
      unfold ancestor? at above
      cases described : metadata.describe? ancestor with
      | none => simp [described] at above
      | some _ => rfl
    have := metadata.unpassed_cons_lt known new
    simp
    omega

/-- The ids to ask for when `id` inherits, most general first. -/
def chain (metadata : Metadata) (id : String) : Outcome (List String) :=
  match metadata.describe? id with
  | some descriptor =>
    match descriptor.kind with
    | .typeModule => metadata.walk id [id] descriptor.ancestor
    | .instanceModule => .ok [id]
  | none => .ok [id]

/-- Metadata held in two tables: canonical ids by id, and descriptors by canonical id. -/
def ofTables (ids : Fields String) (modules : Fields Descriptor) : Metadata where
  canonical? id := Fields.get? id ids
  describe? id := Fields.get? id modules
  described := Fields.keys modules
  mem_described _ found := Fields.isSome_get?_iff.1 found

end Metadata

end Strata
