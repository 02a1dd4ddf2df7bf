import Strata.Proofs.Outcomes
import Strata.Registry

/-!
# Ancestry in a registry

The walk up the ancestors of a module is guarded against coming back to an id that it has
passed. `Lineage` follows the recorded ancestors without looking back; where it repeats
nothing the guard never stops the walk, and the chain is the lineage with the module
below it.

In a registry it repeats nothing. Modules are registered one after the other, each with an
id of its own and below a type that is there already: `Grown` says so of the positions in a
registry, and every command keeps it, refused ones by changing nothing. So all that is above
a module stands at an earlier position, and its chain is that of its ancestor with the module
itself at the end.
-/

namespace Strata

namespace Metadata

variable {metadata : Metadata}

/-- The recorded ancestors from `next` on, most general first. -/
inductive Lineage (metadata : Metadata) : Option String → List String → Prop
  | top : Lineage metadata none []
  | climb {ancestor : String} {above : List String}
      (h : Lineage metadata (metadata.ancestor? ancestor) above) :
      Lineage metadata (some ancestor) (above ++ [ancestor])

/-- A lineage that repeats nothing is walked to its end. -/
theorem walk_of_lineage {next : Option String} {above : List String}
    (h : Lineage metadata next above) (id : String) {chain : List String}
    (hnodup : (above ++ chain).Nodup) : metadata.walk id chain next = .ok (above ++ chain) := by
  induction h generalizing chain with
  | top => rw [walk, List.nil_append]
  | @climb ancestor above _ ih =>
      rw [List.append_assoc, List.singleton_append] at hnodup ⊢
      have hnew : ancestor ∉ chain :=
        (List.nodup_cons.mp (List.nodup_append.mp hnodup).2.1).1
      rw [walk, if_neg hnew]
      exact ih hnodup

theorem chain_of_lineage {id : String} {descriptor : Descriptor} {above : List String}
    (hdescribe : metadata.describe? id = some descriptor) (hkind : descriptor.kind = .typeModule)
    (h : Lineage metadata descriptor.ancestor above) (hnodup : (above ++ [id]).Nodup) :
    metadata.chain id = .ok (above ++ [id]) := by
  rw [chain, hdescribe]
  dsimp only
  rw [hkind]
  exact walk_of_lineage h id hnodup

/-- A walk puts ancestors in front of what it started with, each of them once. -/
theorem of_walk_eq_ok {id : String} {start result : List String} {next : Option String}
    (h : metadata.walk id start next = .ok result) (hnodup : start.Nodup) :
    start <:+ result ∧ result.Nodup := by
  fun_induction Metadata.walk metadata id start next with
  | case1 start =>
      cases h
      exact ⟨List.suffix_rfl, hnodup⟩
  | case2 start ancestor hmem => cases h
  | case3 start ancestor hnew ih =>
      obtain ⟨hsuffix, hresult⟩ := ih h (List.nodup_cons.mpr ⟨hnew, hnodup⟩)
      exact ⟨(List.suffix_cons ancestor start).trans hsuffix, hresult⟩

/-- A chain ends with the module that it is for, and repeats nothing. -/
theorem of_chain_eq_ok {id : String} {result : List String} (h : metadata.chain id = .ok result) :
    [id] <:+ result ∧ result.Nodup := by
  have halone : [id].Nodup := List.pairwise_singleton _ _
  unfold chain at h
  split at h
  · split at h
    · exact of_walk_eq_ok h halone
    · cases h
      exact ⟨List.suffix_rfl, halone⟩
  · cases h
    exact ⟨List.suffix_rfl, halone⟩

end Metadata

namespace Registry

/-! ## Runs of commands -/

/-- A call that changes a registry, or is refused. -/
inductive Command
  | addType (id : String) (ancestor : Option String)
  | addSubtype (id base : String)
  | addInstance (id typeId : String)
  | addAlias (id target : String)
  | addNamespace (start target : String)

/-- The id that a command is to register. -/
def Command.registers? : Command → Option String
  | .addType id _ | .addSubtype id _ | .addInstance id _ => some id
  | .addAlias .. | .addNamespace .. => none

def perform (registry : Registry) : Command → Outcome Registry
  | .addType id ancestor => registry.addType id ancestor
  | .addSubtype id base => registry.addSubtype id base
  | .addInstance id typeId => registry.addInstance id typeId
  | .addAlias id target => registry.addAlias id target
  | .addNamespace start target => registry.addNamespace start target

/-- The registry after a command; one that is refused changes nothing. -/
def after (registry : Registry) (command : Command) : Registry :=
  match registry.perform command with
  | .ok grown => grown
  | .error _ => registry

/-- The registry that commands make out of nothing. -/
def afterCommands (commands : List Command) : Registry :=
  commands.foldl after {}

/-! ## Positions -/

/-- The parent of an entry, if it has one, is the position of a type. -/
def Attaches (registry : Registry) (entry : Entry) : Prop :=
  ∀ parent, entry.parent = some parent →
    ∃ above, registry.entries[parent]? = some above ∧ above.kind = .typeModule

/-- Entries and the index agree on where each id is, and the parent of an entry is a type at
an earlier position. -/
structure Grown (registry : Registry) : Prop where
  /-- What the index holds is the position of an entry with that id. -/
  indexed : ∀ id position, Fields.get? id registry.index = some position →
    ∃ entry, registry.entries[position]? = some entry ∧ entry.id = id
  /-- Every entry is indexed, at its own position. -/
  placed : ∀ position entry, registry.entries[position]? = some entry →
    Fields.get? entry.id registry.index = some position
  named : ∀ entry ∈ registry.entries, entry.id ≠ ""
  linked : ∀ (position : Nat) (entry : Entry) (parent : Nat),
    registry.entries[position]? = some entry → entry.parent = some parent →
      parent < position ∧ ∃ above, registry.entries[parent]? = some above
        ∧ above.kind = .typeModule

section Grown

variable {registry grown : Registry}

theorem append_eq_ok {entry : Entry} :
    registry.append entry = .ok grown ↔
      entry.id ≠ "" ∧ Fields.get? entry.id registry.index = none
        ∧ grown = { registry with
          entries := registry.entries ++ [entry]
          index := Fields.put entry.id registry.entries.length registry.index } := by
  rw [Registry.append, Fields.has]
  by_cases hnamed : entry.id = ""
  · simp [hnamed]
  · cases hnew : Fields.get? entry.id registry.index with
    | none => simp [hnamed, eq_comm]
    | some position => simp [hnamed]

theorem typePosition_eq_ok {role : TypeRole} {id : String} {position : Nat} :
    registry.typePosition role id = .ok position ↔
      Fields.get? id registry.index = some position
        ∧ ∃ entry, registry.entries[position]? = some entry ∧ entry.kind = .typeModule := by
  unfold typePosition
  cases hindexed : Fields.get? id registry.index with
  | none => simp
  | some found =>
      dsimp only
      split
      · next heq =>
          constructor
          · intro h
            cases h
            exact ⟨rfl, _, heq, rfl⟩
          · rintro ⟨hsame, -⟩
            cases hsame
            rfl
      · next hnot =>
          constructor
          · intro h
            cases h
          · rintro ⟨hsame, ⟨id, kind, parent⟩, hfound, rfl⟩
            cases hsame
            exact absurd hfound (hnot id parent)

/-- What stands at a position when an entry has been added at the end. -/
theorem getElem?_concat_eq_some {entries : List Entry} {last entry : Entry} {position : Nat} :
    (entries ++ [last])[position]? = some entry ↔
      entries[position]? = some entry ∨ position = entries.length ∧ entry = last := by
  rcases Nat.lt_trichotomy position entries.length with hlt | rfl | hgt
  · rw [List.getElem?_append_left hlt]
    exact ⟨.inl, fun h => h.elim id fun hlast => absurd hlast.1 (Nat.ne_of_lt hlt)⟩
  · rw [List.getElem?_concat_length, List.getElem?_eq_none (Nat.le_refl _)]
    simp [eq_comm]
  · have hlong : (entries ++ [last]).length ≤ position := by
      rw [List.length_append, List.length_singleton]
      omega
    rw [List.getElem?_eq_none hlong, List.getElem?_eq_none (Nat.le_of_lt hgt)]
    simp [Nat.ne_of_gt hgt]

theorem lt_of_getElem? {entries : List Entry} {entry : Entry} {position : Nat}
    (h : entries[position]? = some entry) : position < entries.length :=
  (List.getElem?_eq_some_iff.mp h).1

theorem Grown.empty : Grown {} where
  indexed := fun _ _ h => by cases h
  placed := fun _ _ h => by cases h
  named := List.forall_mem_nil _
  linked := fun _ _ _ h => by cases h

/-- A new entry below a type that is there keeps everything in its place. -/
theorem Grown.of_append {entry : Entry} (h : Grown registry) (hparent : registry.Attaches entry)
    (happend : registry.append entry = .ok grown) : Grown grown := by
  obtain ⟨hnamed, hnew, rfl⟩ := append_eq_ok.mp happend
  refine ⟨fun id position hindexed => ?_, fun position found hfound => ?_,
    List.forall_mem_append.mpr ⟨h.named, List.forall_mem_singleton.mpr hnamed⟩,
    fun position found parent hfound hlink => ?_⟩
  · by_cases hid : id = entry.id
    · subst hid
      rw [Fields.get?_put_self] at hindexed
      cases hindexed
      exact ⟨entry, List.getElem?_concat_length, rfl⟩
    · rw [Fields.get?_put_of_ne hid] at hindexed
      obtain ⟨found, hfound, hsame⟩ := h.indexed id position hindexed
      exact ⟨found, getElem?_concat_eq_some.mpr (.inl hfound), hsame⟩
  · rcases getElem?_concat_eq_some.mp hfound with hold | ⟨rfl, rfl⟩
    · have hplaced := h.placed position found hold
      have hother : found.id ≠ entry.id := by
        intro hsame
        rw [hsame, hnew] at hplaced
        cases hplaced
      rw [Fields.get?_put_of_ne hother]
      exact hplaced
    · exact Fields.get?_put_self _ _ _
  · rcases getElem?_concat_eq_some.mp hfound with hold | ⟨rfl, rfl⟩
    · obtain ⟨hlt, above, habove, hkind⟩ := h.linked position found parent hold hlink
      exact ⟨hlt, above, getElem?_concat_eq_some.mpr (.inl habove), hkind⟩
    · obtain ⟨above, habove, hkind⟩ := hparent parent hlink
      exact ⟨lt_of_getElem? habove, above, getElem?_concat_eq_some.mpr (.inl habove), hkind⟩

theorem attaches_of_typePosition {role : TypeRole} {id parent : String} {position : Nat}
    (h : registry.typePosition role parent = .ok position) (kind : ModuleKind) :
    registry.Attaches ⟨id, kind, some position⟩ := by
  intro other hsome
  cases hsome
  exact (typePosition_eq_ok.mp h).2

theorem attaches_of_ancestorPosition {id : String} {ancestor : Option String}
    {parent : Option Nat} (h : registry.ancestorPosition ancestor = .ok parent) :
    registry.Attaches ⟨id, .typeModule, parent⟩ := by
  cases ancestor with
  | none =>
      cases h
      intro other hnone
      cases hnone
  | some ancestor =>
      obtain ⟨position, hposition, rfl⟩ := Outcome.map_eq_ok.mp h
      exact attaches_of_typePosition hposition _

theorem addAlias_eq_ok {id target : String} :
    registry.addAlias id target = .ok grown ↔ (id ≠ "" ∧ target ≠ "")
      ∧ grown = { registry with aliases := Fields.put id target registry.aliases } := by
  rw [addAlias, ← not_or]
  by_cases hempty : id = "" ∨ target = ""
  · simp [hempty]
  · simp [hempty, eq_comm]

theorem addNamespace_eq_ok {start target : String} :
    registry.addNamespace start target = .ok grown ↔ (start ≠ "" ∧ target ≠ "")
      ∧ grown = { registry with namespaces := mapped start target registry.namespaces } := by
  rw [addNamespace, ← not_or]
  by_cases hempty : start = "" ∨ target = ""
  · simp [hempty]
  · simp [hempty, eq_comm]

/-- A command that succeeds adds one entry for the id that it is to register, below a type
that is there, or lets a name stand for something else. -/
theorem perform_cases {command : Command} (hperform : registry.perform command = .ok grown) :
    (∃ entry, command.registers? = some entry.id ∧ registry.Attaches entry
        ∧ registry.append entry = .ok grown)
      ∨ (∃ id target, command = .addAlias id target ∧ (id ≠ "" ∧ target ≠ "")
        ∧ grown = { registry with aliases := Fields.put id target registry.aliases })
      ∨ ∃ start target, command = .addNamespace start target ∧ (start ≠ "" ∧ target ≠ "")
        ∧ grown = { registry with namespaces := mapped start target registry.namespaces } := by
  cases command with
  | addType id ancestor =>
      obtain ⟨parent, hparent, happend⟩ := Outcome.bind_eq_ok.mp hperform
      exact .inl ⟨_, rfl, attaches_of_ancestorPosition hparent, happend⟩
  | addSubtype id base =>
      rw [perform, addSubtype] at hperform
      split at hperform
      · cases hperform
      · obtain ⟨parent, hparent, happend⟩ := Outcome.bind_eq_ok.mp hperform
        exact .inl ⟨_, rfl, attaches_of_ancestorPosition hparent, happend⟩
  | addInstance id typeId =>
      rw [perform, addInstance] at hperform
      split at hperform
      · cases hperform
      · obtain ⟨position, hposition, happend⟩ := Outcome.bind_eq_ok.mp hperform
        exact .inl ⟨_, rfl, attaches_of_typePosition hposition _, happend⟩
  | addAlias id target => exact .inr (.inl ⟨id, target, rfl, addAlias_eq_ok.mp hperform⟩)
  | addNamespace start target =>
      exact .inr (.inr ⟨start, target, rfl, addNamespace_eq_ok.mp hperform⟩)

theorem Grown.perform {command : Command} (h : Grown registry)
    (hperform : registry.perform command = .ok grown) : Grown grown := by
  rcases perform_cases hperform with
    ⟨entry, -, hparent, happend⟩ | ⟨id, target, -, -, rfl⟩ | ⟨start, target, -, -, rfl⟩
  · exact h.of_append hparent happend
  · exact ⟨h.indexed, h.placed, h.named, h.linked⟩
  · exact ⟨h.indexed, h.placed, h.named, h.linked⟩

/-- What every command that succeeds preserves is preserved by commands one after the other. -/
theorem preserved_by_commands {motive : Registry → Prop}
    (hstep : ∀ {registry grown command}, motive registry →
      registry.perform command = .ok grown → motive grown)
    (h : motive registry) (commands : List Command) : motive (commands.foldl after registry) := by
  induction commands generalizing registry with
  | nil => exact h
  | cons command rest ih =>
      refine ih ?_
      unfold after
      split
      · next grown hperform => exact hstep h hperform
      · exact h

theorem Grown.commands (h : Grown registry) (commands : List Command) :
    Grown (commands.foldl after registry) :=
  preserved_by_commands Grown.perform h commands

theorem grown_afterCommands (commands : List Command) : Grown (afterCommands commands) :=
  Grown.empty.commands commands

/-! ## Entries by id -/

/-- An entry is found under its id. -/
theorem Grown.find?_of_mem (h : Grown registry) {entry : Entry}
    (hmem : entry ∈ registry.entries) : registry.find? entry.id = some entry := by
  obtain ⟨position, hposition⟩ := List.mem_iff_getElem?.mp hmem
  rw [find?, h.placed position entry hposition]
  exact hposition

theorem mem_of_find? {id : String} {entry : Entry} (h : registry.find? id = some entry) :
    entry ∈ registry.entries := by
  obtain ⟨position, -, hposition⟩ := Option.bind_eq_some_iff.mp h
  exact List.mem_of_getElem? hposition

theorem Grown.id_of_find? (h : Grown registry) {id : String} {entry : Entry}
    (hfound : registry.find? id = some entry) : entry.id = id := by
  obtain ⟨position, hindexed, hposition⟩ := Option.bind_eq_some_iff.mp hfound
  obtain ⟨other, hother, hid⟩ := h.indexed id position hindexed
  rw [hposition] at hother
  cases hother
  exact hid

theorem describe?_of_find? {id : String} {entry : Entry} (h : registry.find? id = some entry)
    (hkind : entry.kind = .typeModule) :
    registry.describe? id
      = some { id := entry.id, kind := .typeModule, ancestor := registry.parentId? entry } := by
  rw [describe?, h, Option.map_some, descriptor, hkind]

theorem find?_of_describe? {id : String} {descriptor : Descriptor}
    (h : registry.describe? id = some descriptor) (hkind : descriptor.kind = .typeModule) :
    ∃ entry ∈ registry.entries, entry.id = descriptor.id ∧ entry.kind = .typeModule
      ∧ registry.parentId? entry = descriptor.ancestor := by
  obtain ⟨entry, hfound, rfl⟩ := Option.map_eq_some_iff.mp h
  rw [descriptor_kind] at hkind
  refine ⟨entry, mem_of_find? hfound, (descriptor_id registry entry).symm, hkind, ?_⟩
  rw [Registry.descriptor, hkind]

theorem ancestor?_of_find? {id : String} {entry : Entry} (h : registry.find? id = some entry)
    (hkind : entry.kind = .typeModule) :
    registry.metadata.ancestor? id = registry.parentId? entry := by
  show (registry.describe? id).bind Descriptor.ancestor = registry.parentId? entry
  rw [describe?_of_find? h hkind]
  rfl

/-- The parent of an entry stands at an earlier position. -/
theorem Grown.parent_of_parentId? (h : Grown registry) {position : Nat} {entry : Entry}
    (hposition : registry.entries[position]? = some entry) {parent : String}
    (hparent : registry.parentId? entry = some parent) :
    ∃ earlier above, earlier < position ∧ registry.entries[earlier]? = some above
      ∧ above.id = parent ∧ above.kind = .typeModule := by
  obtain ⟨earlier, hlink, hid⟩ := Option.bind_eq_some_iff.mp hparent
  obtain ⟨hlt, above, habove, hkind⟩ := h.linked position entry earlier hposition hlink
  rw [idAt?, habove] at hid
  cases hid
  exact ⟨earlier, above, hlt, habove, rfl, hkind⟩

theorem Grown.parent_of_mem (h : Grown registry) :
    ∀ entry ∈ registry.entries, ∀ parent, registry.parentId? entry = some parent →
      ∃ above ∈ registry.entries, above.id = parent ∧ above.kind = .typeModule := by
  intro entry hmem parent hparent
  obtain ⟨position, hposition⟩ := List.mem_iff_getElem?.mp hmem
  obtain ⟨_, above, -, habove, hfound⟩ := h.parent_of_parentId? hposition hparent
  exact ⟨above, List.mem_of_getElem? habove, hfound⟩

end Grown

/-! ## Chains -/

section Chain

variable {registry : Registry}

/-- Above each entry stands a lineage that repeats nothing, of modules at earlier
positions. -/
theorem Grown.exists_lineage (h : Grown registry) (position : Nat) :
    ∀ entry, registry.entries[position]? = some entry →
      ∃ above, registry.metadata.Lineage (registry.parentId? entry) above
        ∧ (∀ id ∈ above, ∃ earlier < position, Fields.get? id registry.index = some earlier)
        ∧ (above ++ [entry.id]).Nodup := by
  induction position using Nat.strongRecOn with
  | ind position ih =>
      intro entry hposition
      cases hparent : registry.parentId? entry with
      | none => exact ⟨[], .top, List.forall_mem_nil _, List.pairwise_singleton _ _⟩
      | some parent =>
          obtain ⟨earlier, type, hlt, htype, rfl, hkind⟩ :=
            h.parent_of_parentId? hposition hparent
          obtain ⟨above, hlineage, hwithin, hnodup⟩ := ih earlier hlt type htype
          have hfound := h.find?_of_mem (List.mem_of_getElem? htype)
          rw [← ancestor?_of_find? hfound hkind] at hlineage
          -- The lineage of the entry is its parent's with the parent at the end. All of
          -- it is at positions before the entry's own, so the entry's id is not in it.
          have hbefore : ∀ id ∈ above ++ [type.id],
              ∃ earlier < position, Fields.get? id registry.index = some earlier := by
            refine List.forall_mem_append.mpr ⟨fun id hid => ?_,
              List.forall_mem_singleton.mpr ⟨earlier, hlt, h.placed earlier type htype⟩⟩
            obtain ⟨other, hother, hindexed⟩ := hwithin id hid
            exact ⟨other, Nat.lt_trans hother hlt, hindexed⟩
          refine ⟨above ++ [type.id], hlineage.climb, hbefore, ?_⟩
          refine List.nodup_append.mpr ⟨hnodup, List.pairwise_singleton _ _, ?_⟩
          rintro id hid _ hlast rfl
          obtain ⟨other, hother, hindexed⟩ := hbefore id hid
          cases List.mem_singleton.mp hlast
          rw [h.placed position entry hposition] at hindexed
          cases hindexed
          exact Nat.lt_irrefl _ hother

/-- The chain of a type is that of its ancestor with the type itself at the end. -/
theorem Grown.chain_of_type (h : Grown registry) {entry : Entry}
    (hmem : entry ∈ registry.entries) (hkind : entry.kind = .typeModule) {ancestor : String}
    (hancestor : registry.parentId? entry = some ancestor) :
    ∃ chain, registry.metadata.chain ancestor = .ok chain
      ∧ registry.metadata.chain entry.id = .ok (chain ++ [entry.id]) := by
  obtain ⟨position, hposition⟩ := List.mem_iff_getElem?.mp hmem
  obtain ⟨_, type, -, htype, rfl, hkind'⟩ := h.parent_of_parentId? hposition hancestor
  obtain ⟨_, hlineage, -, hnodup⟩ := h.exists_lineage position entry hposition
  have hfound := h.find?_of_mem (List.mem_of_getElem? htype)
  have hdescribe := describe?_of_find? (h.find?_of_mem hmem) hkind
  refine ⟨_, ?_, Metadata.chain_of_lineage hdescribe rfl hlineage hnodup⟩
  rw [hancestor] at hlineage
  cases hlineage with
  | climb habove =>
      rw [ancestor?_of_find? hfound hkind'] at habove
      exact Metadata.chain_of_lineage (describe?_of_find? hfound hkind') rfl habove
        (List.nodup_append.mp hnodup).1

end Chain

end Registry

end Strata
