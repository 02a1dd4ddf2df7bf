import Strata.Proofs.Ancestry

/-!
# The integrity of a registry over time

`Grown` holds of every registry that commands make, so what is read by position is there:
the index leads to entries, and entries lead to parents in front of them. The chains follow
from it. A lineage repeats nothing, so the walk that guards against cycles meets none, for
modules that are registered; and those that are not have nothing above them.

Commands add entries at the end and nothing else, so an earlier registry is a prefix of a
later one. An entry reads the same in both, because its parent is in the prefix too. A
descriptor that was there therefore stays, and with the descriptors of all modules above it
the chain stays as well.
-/

namespace Strata

theorem Metadata.Lineage.of_ancestors {metadata other : Metadata} {next : Option String}
    {above : List String} (h : metadata.Lineage next above)
    (hsame : ∀ id ∈ above, other.ancestor? id = metadata.ancestor? id) :
    other.Lineage next above := by
  induction h with
  | top => exact .top
  | @climb ancestor above _ ih =>
      obtain ⟨habove, hancestor⟩ := List.forall_mem_append.mp hsame
      have h := ih habove
      rw [← hancestor ancestor (List.mem_singleton_self _)] at h
      exact h.climb

namespace Registry

variable {registry later : Registry}

/-! ## What is read is there -/

theorem Grown.isSome_describe?_iff (h : Grown registry) {id : String} :
    (registry.describe? id).isSome ↔ (Fields.get? id registry.index).isSome := by
  rw [describe?, Option.isSome_map, find?]
  cases hindexed : Fields.get? id registry.index with
  | none => exact Iff.rfl
  | some position =>
      obtain ⟨entry, hentry, -⟩ := h.indexed id position hindexed
      rw [Option.bind_some, hentry]
      exact Iff.rfl

theorem Grown.attaches (h : Grown registry) {entry : Entry} (hmem : entry ∈ registry.entries) :
    registry.Attaches entry := by
  obtain ⟨position, hposition⟩ := List.mem_iff_getElem?.mp hmem
  exact fun parent hparent => (h.linked position entry parent hposition hparent).2

theorem Grown.isSome_parentId? (h : Grown registry) {entry : Entry}
    (hmem : entry ∈ registry.entries) :
    (registry.parentId? entry).isSome = entry.parent.isSome := by
  rw [parentId?]
  cases hparent : entry.parent with
  | none => rfl
  | some parent =>
      obtain ⟨above, habove, -⟩ := h.attaches hmem parent hparent
      rw [Option.bind_some, idAt?, habove]
      rfl

/-! ## Chains -/

/-- A module without anything above it is all of its chain. -/
theorem chain_alone {id : String} (h : ∀ descriptor, registry.describe? id = some descriptor →
      descriptor.kind = .typeModule → descriptor.ancestor = none) :
    registry.metadata.chain id = .ok [id] := by
  rw [Metadata.chain, show registry.metadata.describe? id = registry.describe? id from rfl]
  cases hdescribe : registry.describe? id with
  | none => rfl
  | some descriptor =>
      dsimp only
      cases hkind : descriptor.kind with
      | typeModule => rw [h descriptor hdescribe hkind, Metadata.walk]
      | instanceModule => rfl

theorem chain_of_instance {id : String} {descriptor : Descriptor}
    (hdescribe : registry.describe? id = some descriptor)
    (hkind : descriptor.kind = .instanceModule) : registry.metadata.chain id = .ok [id] := by
  refine chain_alone fun other hother htype => ?_
  rw [hdescribe] at hother
  cases hother
  rw [hkind] at htype
  cases htype

/-- Above a registered type stands a lineage of registered modules that repeats nothing. -/
theorem Grown.lineage_of_type (h : Grown registry) {id : String} {descriptor : Descriptor}
    (hdescribe : registry.describe? id = some descriptor)
    (hkind : descriptor.kind = .typeModule) :
    ∃ above, registry.metadata.Lineage descriptor.ancestor above
      ∧ (∀ other ∈ above, (registry.describe? other).isSome) ∧ (above ++ [id]).Nodup := by
  obtain ⟨entry, hfound, rfl⟩ := Option.map_eq_some_iff.mp hdescribe
  rw [descriptor_kind] at hkind
  have hancestor : (registry.descriptor entry).ancestor = registry.parentId? entry := by
    rw [descriptor, hkind]
  obtain ⟨position, hposition⟩ := List.mem_iff_getElem?.mp (mem_of_find? hfound)
  obtain ⟨above, hlineage, hwithin, hnodup⟩ := h.exists_lineage position entry hposition
  rw [h.id_of_find? hfound] at hnodup
  rw [hancestor]
  refine ⟨above, hlineage, fun other hother => ?_, hnodup⟩
  obtain ⟨earlier, -, hindexed⟩ := hwithin other hother
  exact h.isSome_describe?_iff.mpr (Option.isSome_of_eq_some hindexed)

theorem Grown.exists_chain (h : Grown registry) (id : String) :
    ∃ chain, registry.metadata.chain id = .ok chain := by
  cases hdescribe : registry.describe? id with
  | none => exact ⟨[id], chain_alone fun descriptor hsome => by
      rw [hdescribe] at hsome
      cases hsome⟩
  | some descriptor =>
      cases hkind : descriptor.kind with
      | typeModule =>
          obtain ⟨above, hlineage, -, hnodup⟩ := h.lineage_of_type hdescribe hkind
          exact ⟨_, Metadata.chain_of_lineage hdescribe hkind hlineage hnodup⟩
      | instanceModule => exact ⟨[id], chain_of_instance hdescribe hkind⟩

/-! ## Later registries -/

section Later

theorem entries_prefix_perform {grown : Registry} {command : Command}
    (hperform : registry.perform command = .ok grown) : registry.entries <+: grown.entries := by
  rcases perform_cases hperform with
    ⟨entry, -, -, happend⟩ | ⟨id, target, -, -, rfl⟩ | ⟨start, target, -, -, rfl⟩
  · obtain ⟨-, -, rfl⟩ := append_eq_ok.mp happend
    exact List.prefix_append _ _
  · exact List.prefix_rfl
  · exact List.prefix_rfl

theorem entries_prefix_commands (registry : Registry) (commands : List Command) :
    registry.entries <+: (commands.foldl after registry).entries := by
  refine preserved_by_commands (motive := fun grown => registry.entries <+: grown.entries) ?_
    List.prefix_rfl commands
  intro before grown command hextends hperform
  exact hextends.trans (entries_prefix_perform hperform)

theorem parentId?_of_attaches {entry : Entry} (hattaches : registry.Attaches entry)
    (hextends : registry.entries <+: later.entries) :
    later.parentId? entry = registry.parentId? entry := by
  obtain ⟨added, hadded⟩ := hextends
  rw [parentId?, parentId?]
  cases hparent : entry.parent with
  | none => rfl
  | some parent =>
      obtain ⟨above, habove, -⟩ := hattaches parent hparent
      rw [Option.bind_some, Option.bind_some, idAt?, idAt?, ← hadded,
        List.getElem?_append_left (lt_of_getElem? habove)]

variable (h : Grown registry) (hlater : Grown later)
  (hextends : registry.entries <+: later.entries)

include h hextends in
theorem Grown.descriptor_of_prefix {entry : Entry} (hmem : entry ∈ registry.entries) :
    later.descriptor entry = registry.descriptor entry := by
  rw [descriptor, descriptor, parentId?_of_attaches (h.attaches hmem) hextends]

include h hlater hextends in
theorem Grown.describe?_of_prefix {id : String} {descriptor : Descriptor}
    (hdescribe : registry.describe? id = some descriptor) :
    later.describe? id = some descriptor := by
  obtain ⟨entry, hfound, rfl⟩ := Option.map_eq_some_iff.mp hdescribe
  have hmem := mem_of_find? hfound
  have hlaterFound := hlater.find?_of_mem (hextends.subset hmem)
  rw [h.id_of_find? hfound] at hlaterFound
  rw [describe?, hlaterFound, Option.map_some, h.descriptor_of_prefix hextends hmem]

include h hlater hextends in
theorem Grown.chain_of_prefix {id : String} (hthere : (registry.describe? id).isSome) :
    later.metadata.chain id = registry.metadata.chain id := by
  obtain ⟨descriptor, hdescribe⟩ := Option.isSome_iff_exists.mp hthere
  have hkept := h.describe?_of_prefix hlater hextends hdescribe
  cases hkind : descriptor.kind with
  | typeModule =>
      obtain ⟨above, hlineage, hwithin, hnodup⟩ := h.lineage_of_type hdescribe hkind
      have hlaterLineage : later.metadata.Lineage descriptor.ancestor above := by
        refine hlineage.of_ancestors fun other hother => ?_
        obtain ⟨found, hfound⟩ := Option.isSome_iff_exists.mp (hwithin other hother)
        show (later.describe? other).bind _ = (registry.describe? other).bind _
        rw [hfound, h.describe?_of_prefix hlater hextends hfound]
      rw [Metadata.chain_of_lineage hdescribe hkind hlineage hnodup,
        Metadata.chain_of_lineage hkept hkind hlaterLineage hnodup]
  | instanceModule => rw [chain_of_instance hdescribe hkind, chain_of_instance hkept hkind]

end Later

/-! ## Integrity -/

/-- In a registry, however it was made, the index and the entries agree, parents stand at
earlier positions and are types, and nothing that is read by position is out of range. Every
id has a chain: a type's is that of its ancestor with the type at the end, and that of a
root, of an instance or of an id that is not registered is the id alone. What is known of a
registered module, and its chain, are the same after any further commands. -/
theorem registry_integrity (commands : List Command) :
    let registry := afterCommands commands
    Grown registry
    ∧ (∀ id, (registry.describe? id).isSome ↔ (Fields.get? id registry.index).isSome)
    ∧ (∀ entry ∈ registry.entries,
        (registry.parentId? entry).isSome = entry.parent.isSome)
    ∧ (∀ id, ∃ chain, registry.metadata.chain id = .ok chain)
    ∧ (∀ id descriptor ancestor, registry.describe? id = some descriptor →
        descriptor.kind = .typeModule → descriptor.ancestor = some ancestor →
        ∃ chain, registry.metadata.chain ancestor = .ok chain
          ∧ registry.metadata.chain id = .ok (chain ++ [id]))
    ∧ (∀ id, (∀ descriptor, registry.describe? id = some descriptor →
          descriptor.kind = .typeModule → descriptor.ancestor = none) →
        registry.metadata.chain id = .ok [id])
    ∧ ∀ more id, (registry.describe? id).isSome →
        (afterCommands (commands ++ more)).describe? id = registry.describe? id
        ∧ (afterCommands (commands ++ more)).metadata.chain id
          = registry.metadata.chain id := by
  intro registry
  have h : Grown registry := grown_afterCommands commands
  refine ⟨h, fun id => h.isSome_describe?_iff, fun entry => h.isSome_parentId?,
    h.exists_chain, ?_, fun id => chain_alone, ?_⟩
  · intro id descriptor ancestor hdescribe hkind hancestor
    obtain ⟨entry, hfound, rfl⟩ := Option.map_eq_some_iff.mp hdescribe
    obtain ⟨other, hmem, hid, htype, hparent⟩ := find?_of_describe? hdescribe hkind
    rw [hancestor] at hparent
    rw [descriptor_id, h.id_of_find? hfound] at hid
    rw [← hid]
    exact h.chain_of_type hmem htype hparent
  · intro more id hthere
    have hlater : Grown (afterCommands (commands ++ more)) := grown_afterCommands _
    have hextends : registry.entries <+: (afterCommands (commands ++ more)).entries := by
      rw [afterCommands, List.foldl_append]
      exact entries_prefix_commands registry more
    refine ⟨?_, h.chain_of_prefix hlater hextends hthere⟩
    obtain ⟨descriptor, hdescribe⟩ := Option.isSome_iff_exists.mp hthere
    rw [hdescribe]
    exact h.describe?_of_prefix hlater hextends hdescribe

end Registry

end Strata
