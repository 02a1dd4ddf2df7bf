import Strata.Metadata

/-!
# The module registry

Modules in the order of their registration, with aliases for single ids and
mappings for id prefixes. The entries are only ever added at the end; an index
says at which position the entry of an id is, and an entry names its parent by
position too. A module is registered once, and whatever it descends from is
registered before it and is a type. So the registry never has a cycle, and later
registrations change nothing about a module that is there.

The canonical id of a registered module is its own. Other ids are looked up
among the aliases and then among the prefixes. The prefixes are kept with the
longest in front, and the first one that an id begins with counts.
-/

namespace Strata

/-- A registered module with the position of its ancestor or of its type. -/
structure Registry.Entry where
  id : String
  kind : ModuleKind
  parent : Option Nat
  deriving DecidableEq, Repr

structure Registry where
  entries : List Registry.Entry := []
  /-- The position of the entry of each registered id. -/
  index : Fields Nat := []
  aliases : Fields String := []
  /-- Prefixes with what they stand for, longest first. -/
  namespaces : List (String × String) := []
  deriving Repr

namespace Registry

/-- The entry of a registered id. -/
def find? (registry : Registry) (id : String) : Option Entry :=
  (Fields.get? id registry.index).bind fun position => registry.entries[position]?

def size (registry : Registry) : Nat :=
  registry.entries.length

/-- The position of a registered type. -/
def typePosition (registry : Registry) (role : TypeRole) (id : String) : Outcome Nat :=
  match Fields.get? id registry.index with
  | none => .error (.typeNotRegistered role id)
  | some position =>
    match registry.entries[position]? with
    | some { kind := .typeModule, .. } => .ok position
    | _ => .error (.notAType role id)

/-- The registry with one more module, whose parent has been looked up. -/
def append (registry : Registry) (entry : Entry) : Outcome Registry :=
  if entry.id = "" then .error .moduleIdEmpty
  else if Fields.has entry.id registry.index then .error (.moduleRegistered entry.id)
  else .ok { registry with
    entries := registry.entries ++ [entry]
    index := Fields.put entry.id registry.entries.length registry.index }

/-- The position of an ancestor, if there is to be one. -/
def ancestorPosition (registry : Registry) : Option String → Outcome (Option Nat)
  | none => .ok none
  | some ancestor => some <$> registry.typePosition .ancestor ancestor

/-- Register a type, derived from a registered type or from none. -/
def addType (registry : Registry) (id : String) (ancestor : Option String) :
    Outcome Registry := do
  let parent ← registry.ancestorPosition ancestor
  registry.append ⟨id, .typeModule, parent⟩

/-- Register a type derived from another, which has to be named. -/
def addSubtype (registry : Registry) (id base : String) : Outcome Registry :=
  if base = "" then .error .baseTypeEmpty else registry.addType id (some base)

/-- Register an instance of a registered type. -/
def addInstance (registry : Registry) (id typeId : String) : Outcome Registry :=
  if typeId = "" then .error .instanceTypeEmpty
  else do
    let parent ← registry.typePosition .instanceType typeId
    registry.append ⟨id, .instanceModule, some parent⟩

/-- Let an id stand for another, in place of what it stood for. -/
def addAlias (registry : Registry) (id target : String) : Outcome Registry :=
  if id = "" ∨ target = "" then .error .aliasEmpty
  else .ok { registry with aliases := Fields.put id target registry.aliases }

/-- Whether a prefix may stand in front of another: the longer one does, and of prefixes
that take as many bytes the lesser text. -/
def longerFirst (entry other : String × String) : Bool :=
  other.1.utf8ByteSize < entry.1.utf8ByteSize
    || entry.1.utf8ByteSize = other.1.utf8ByteSize && !(other.1 < entry.1)

/-- Prefixes with one more, in place of what it stood for. -/
def mapped (start target : String) (namespaces : List (String × String)) :
    List (String × String) :=
  (Fields.erase start namespaces ++ [(start, target)]).mergeSort longerFirst

/-- Let every id that begins with `start` stand for `target` and its remainder. -/
def addNamespace (registry : Registry) (start target : String) : Outcome Registry :=
  if start = "" ∨ target = "" then .error .namespaceEmpty
  else .ok { registry with namespaces := mapped start target registry.namespaces }

/-- The first prefix that an id begins with, and its target. -/
def namespaceOf? (registry : Registry) (id : String) : Option (String × String) :=
  registry.namespaces.find? fun entry => entry.1.toList.isPrefixOf id.toList

/-- The canonical id of an id, if it is registered or stands for another. -/
def canonical? (registry : Registry) (id : String) : Option String :=
  if Fields.has id registry.index then some id
  else
    match Fields.get? id registry.aliases with
    | some target => some target
    | none =>
      (registry.namespaceOf? id).map fun (start, target) =>
        target ++ String.ofList (id.toList.drop start.toList.length)

/-- The id of the entry at a position. -/
def idAt? (registry : Registry) (position : Nat) : Option String :=
  (registry.entries[position]?).map Entry.id

/-- The id of the parent of an entry. -/
def parentId? (registry : Registry) (entry : Entry) : Option String :=
  entry.parent.bind registry.idAt?

/-- What an entry says of its module. -/
def descriptor (registry : Registry) (entry : Entry) : Descriptor :=
  match entry.kind with
  | .typeModule =>
    { id := entry.id, kind := .typeModule, ancestor := registry.parentId? entry }
  | .instanceModule =>
    { id := entry.id, kind := .instanceModule, typeId := registry.parentId? entry }

@[simp] theorem descriptor_id (registry : Registry) (entry : Entry) :
    (registry.descriptor entry).id = entry.id := by
  unfold descriptor
  split <;> rfl

@[simp] theorem descriptor_kind (registry : Registry) (entry : Entry) :
    (registry.descriptor entry).kind = entry.kind := by
  unfold descriptor
  split <;> simp [*]

/-- The descriptor of a registered module. -/
def describe? (registry : Registry) (id : String) : Option Descriptor :=
  (registry.find? id).map registry.descriptor

theorem mem_keys_of_describe? {registry : Registry} {id : String}
    (found : (registry.describe? id).isSome) : id ∈ Fields.keys registry.index := by
  rw [describe?, Option.isSome_map, find?] at found
  cases held : Fields.get? id registry.index with
  | none =>
    rw [held] at found
    cases found
  | some position => exact Fields.isSome_get?_iff.1 (Option.isSome_of_eq_some held)

/-- A registry as a source of metadata. -/
def metadata (registry : Registry) : Metadata where
  canonical? := registry.canonical?
  describe? := registry.describe?
  described := Fields.keys registry.index
  mem_described _ found := mem_keys_of_describe? found

end Registry

end Strata
