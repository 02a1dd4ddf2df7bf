import Strata.Manifest
import Strata.Proofs.Integrity

/-!
# Registering modules one after the other

What a registry holds can be listed as descriptors, one for each entry. Registering a module
puts its descriptor at the end of the list, less the field that means nothing for its kind;
and whether it is refused depends on the list alone: its id has to be new and its parent has
to be a type that is listed. So a row of modules can be registered exactly if it is
`Orderly`: each is admitted after those in front of it.
-/

namespace Strata

/-! ## Descriptors in a list -/

/-- A descriptor without the field that its kind does not use. -/
def Descriptor.relevant (descriptor : Descriptor) : Descriptor :=
  match descriptor.kind with
  | .typeModule => { descriptor with typeId := none }
  | .instanceModule => { descriptor with ancestor := none }

@[simp] theorem Descriptor.relevant_id (descriptor : Descriptor) :
    descriptor.relevant.id = descriptor.id := by
  unfold relevant
  split <;> rfl

@[simp] theorem Descriptor.relevant_kind (descriptor : Descriptor) :
    descriptor.relevant.kind = descriptor.kind := by
  unfold relevant
  split <;> rfl

def ListsType (modules : List Descriptor) (id : String) : Prop :=
  ∃ listed ∈ modules, listed.id = id ∧ listed.kind = .typeModule

/-- The parent of a module is among the modules: its ancestor if it is a type that has one,
and its type if it is an instance, which has to have one. -/
def Rooted (modules : List Descriptor) (descriptor : Descriptor) : Prop :=
  match descriptor.kind with
  | .typeModule => ∀ ancestor, descriptor.ancestor = some ancestor → ListsType modules ancestor
  | .instanceModule => ∃ typeId, descriptor.typeId = some typeId ∧ ListsType modules typeId

/-- A module can be registered after others. -/
structure Admitted (earlier : List Descriptor) (descriptor : Descriptor) : Prop where
  named : descriptor.id ≠ ""
  new : ∀ other ∈ earlier, other.id ≠ descriptor.id
  rooted : Rooted earlier descriptor

/-- Each of the modules can be registered after some others and those in front of it. -/
def Orderly (earlier : List Descriptor) : List Descriptor → Prop
  | [] => True
  | first :: rest => Admitted earlier first ∧ Orderly (earlier ++ [first]) rest

theorem ListsType.mono {modules more : List Descriptor} {id : String} (h : ListsType modules id)
    (hmore : modules ⊆ more) : ListsType more id := by
  obtain ⟨listed, hmem, hlisted⟩ := h
  exact ⟨listed, hmore hmem, hlisted⟩

theorem rooted_iff {modules : List Descriptor} {descriptor : Descriptor} :
    Rooted modules descriptor ↔
      (descriptor.kind = .instanceModule → descriptor.typeId.isSome)
        ∧ ∀ parent, descriptor.parent? = some parent → ListsType modules parent := by
  unfold Rooted Descriptor.parent?
  cases descriptor.kind with
  | typeModule => exact ⟨fun h => ⟨nofun, h⟩, And.right⟩
  | instanceModule =>
      constructor
      · rintro ⟨typeId, htype, hlisted⟩
        refine ⟨fun _ => Option.isSome_of_eq_some htype, fun parent hparent => ?_⟩
        cases htype.symm.trans hparent
        exact hlisted
      · rintro ⟨hsome, hlisted⟩
        obtain ⟨typeId, htype⟩ := Option.isSome_iff_exists.mp (hsome rfl)
        exact ⟨typeId, htype, hlisted typeId htype⟩

theorem Rooted.mono {modules more : List Descriptor} {descriptor : Descriptor}
    (h : Rooted modules descriptor) (hmore : modules ⊆ more) : Rooted more descriptor := by
  rw [rooted_iff] at h ⊢
  exact ⟨h.1, fun parent hparent => (h.2 parent hparent).mono hmore⟩

namespace Registry

/-! ## What a registry lists -/

def listed (registry : Registry) : List Descriptor :=
  registry.entries.map registry.descriptor

/-- The registry is one that registering these modules makes. -/
structure Lists (registry : Registry) (modules : List Descriptor) : Prop where
  grown : Grown registry
  listed : registry.listed = modules.map Descriptor.relevant

section Lists

variable {registry grown : Registry} {modules : List Descriptor} {descriptor : Descriptor}

theorem of_descriptor_eq_relevant {entry : Entry}
    (h : registry.descriptor entry = descriptor.relevant) :
    entry.id = descriptor.id ∧ entry.kind = descriptor.kind := by
  have hid := congrArg Descriptor.id h
  have hkind := congrArg Descriptor.kind h
  rw [descriptor_id, Descriptor.relevant_id] at hid
  rw [descriptor_kind, Descriptor.relevant_kind] at hkind
  exact ⟨hid, hkind⟩

theorem Lists.exists_entry (h : registry.Lists modules) (hmem : descriptor ∈ modules) :
    ∃ entry ∈ registry.entries, entry.id = descriptor.id ∧ entry.kind = descriptor.kind := by
  have hlisted : descriptor.relevant ∈ registry.listed := by
    rw [h.listed]
    exact List.mem_map_of_mem hmem
  obtain ⟨entry, hentry, hsame⟩ := List.mem_map.mp hlisted
  exact ⟨entry, hentry, of_descriptor_eq_relevant hsame⟩

theorem Lists.exists_module (h : registry.Lists modules) {entry : Entry}
    (hmem : entry ∈ registry.entries) :
    ∃ descriptor ∈ modules, entry.id = descriptor.id ∧ entry.kind = descriptor.kind := by
  have hlisted : registry.descriptor entry ∈ registry.listed := List.mem_map_of_mem hmem
  rw [h.listed] at hlisted
  obtain ⟨descriptor, hdescriptor, hsame⟩ := List.mem_map.mp hlisted
  exact ⟨descriptor, hdescriptor, of_descriptor_eq_relevant hsame.symm⟩

theorem Lists.get?_eq_none_iff (h : registry.Lists modules) {id : String} :
    Fields.get? id registry.index = none ↔ ∀ listed ∈ modules, listed.id ≠ id := by
  constructor
  · rintro hnone listed hmem rfl
    obtain ⟨entry, hentry, hid, -⟩ := h.exists_entry hmem
    obtain ⟨position, hposition⟩ := List.mem_iff_getElem?.mp hentry
    rw [← hid, h.grown.placed position entry hposition] at hnone
    cases hnone
  · intro hall
    cases hindexed : Fields.get? id registry.index with
    | none => rfl
    | some position =>
        obtain ⟨entry, hentry, rfl⟩ := h.grown.indexed id position hindexed
        obtain ⟨listed, hmem, hid, -⟩ := h.exists_module (List.mem_of_getElem? hentry)
        exact absurd hid.symm (hall listed hmem)

theorem Lists.exists_typePosition_iff (h : registry.Lists modules) (role : TypeRole)
    {id : String} :
    (∃ position, registry.typePosition role id = .ok position) ↔ ListsType modules id := by
  constructor
  · rintro ⟨position, hposition⟩
    obtain ⟨hindexed, entry, hentry, hkind⟩ := typePosition_eq_ok.mp hposition
    obtain ⟨other, hother, hid⟩ := h.grown.indexed id position hindexed
    rw [hentry] at hother
    cases hother
    obtain ⟨listed, hmem, hid', hkind'⟩ := h.exists_module (List.mem_of_getElem? hentry)
    exact ⟨listed, hmem, hid'.symm.trans hid, hkind'.symm.trans hkind⟩
  · rintro ⟨listed, hmem, rfl, hkind⟩
    obtain ⟨entry, hentry, hid, hkind'⟩ := h.exists_entry hmem
    obtain ⟨position, hposition⟩ := List.mem_iff_getElem?.mp hentry
    refine ⟨position, typePosition_eq_ok.mpr ⟨?_, entry, hposition, hkind'.trans hkind⟩⟩
    rw [← hid]
    exact h.grown.placed position entry hposition

theorem Lists.named (h : registry.Lists modules) {id : String} (hlisted : ListsType modules id) :
    id ≠ "" := by
  obtain ⟨listed, hmem, rfl, -⟩ := hlisted
  obtain ⟨entry, hentry, hid, -⟩ := h.exists_entry hmem
  rw [← hid]
  exact h.grown.named entry hentry

/-! ## Registering one more -/

/-- The position of the parent that a module has to be registered below, if any. -/
def parentPosition (registry : Registry) (descriptor : Descriptor) : Outcome (Option Nat) :=
  match descriptor.kind with
  | .typeModule => registry.ancestorPosition descriptor.ancestor
  | .instanceModule =>
    if descriptor.typeId.getD "" = "" then .error .instanceTypeEmpty
    else some <$> registry.typePosition .instanceType (descriptor.typeId.getD "")

theorem add_eq (registry : Registry) (descriptor : Descriptor) :
    registry.add descriptor = (do
      let parent ← registry.parentPosition descriptor
      registry.append ⟨descriptor.id, descriptor.kind, parent⟩) := by
  unfold add parentPosition
  cases descriptor.kind with
  | typeModule => rfl
  | instanceModule =>
      dsimp only
      rw [addInstance]
      split
      · rfl
      · cases registry.typePosition .instanceType (descriptor.typeId.getD "") <;> rfl

theorem Grown.idAt?_of_typePosition (h : Grown registry) {role : TypeRole} {id : String}
    {position : Nat} (hposition : registry.typePosition role id = .ok position) :
    registry.idAt? position = some id := by
  obtain ⟨hindexed, -⟩ := typePosition_eq_ok.mp hposition
  obtain ⟨entry, hentry, rfl⟩ := h.indexed id position hindexed
  rw [idAt?, hentry]
  rfl

theorem typeId_of_getD_ne {descriptor : Descriptor} (h : ¬ descriptor.typeId.getD "" = "") :
    descriptor.typeId = some (descriptor.typeId.getD "") := by
  cases htype : descriptor.typeId with
  | none => exact absurd (by rw [htype]; rfl) h
  | some typeId => rfl

theorem Grown.of_parentPosition (h : Grown registry) {parent : Option Nat}
    (hparent : registry.parentPosition descriptor = .ok parent) :
    registry.Attaches ⟨descriptor.id, descriptor.kind, parent⟩
      ∧ parent.bind registry.idAt? = descriptor.parent? := by
  unfold parentPosition at hparent
  unfold Descriptor.parent?
  split at hparent
  · next hkind =>
      rw [hkind]
      refine ⟨attaches_of_ancestorPosition hparent, ?_⟩
      cases hancestor : descriptor.ancestor with
      | none =>
          rw [hancestor] at hparent
          cases hparent
          rfl
      | some ancestor =>
          rw [hancestor] at hparent
          obtain ⟨position, hposition, rfl⟩ := Outcome.map_eq_ok.mp hparent
          exact h.idAt?_of_typePosition hposition
  · next hkind =>
      rw [hkind]
      split at hparent
      · cases hparent
      · next hnamed =>
          obtain ⟨position, hposition, rfl⟩ := Outcome.map_eq_ok.mp hparent
          refine ⟨attaches_of_typePosition hposition _, ?_⟩
          rw [typeId_of_getD_ne hnamed]
          exact h.idAt?_of_typePosition hposition

theorem Lists.exists_some_typePosition_iff (h : registry.Lists modules) (role : TypeRole)
    {id : String} :
    (∃ parent, some <$> registry.typePosition role id = .ok parent) ↔ ListsType modules id := by
  rw [← h.exists_typePosition_iff role]
  constructor
  · rintro ⟨parent, hparent⟩
    obtain ⟨position, hposition, -⟩ := Outcome.map_eq_ok.mp hparent
    exact ⟨position, hposition⟩
  · rintro ⟨position, hposition⟩
    exact ⟨some position, Outcome.map_eq_ok.mpr ⟨position, hposition, rfl⟩⟩

theorem Lists.exists_parentPosition_iff (h : registry.Lists modules) :
    (∃ parent, registry.parentPosition descriptor = .ok parent) ↔ Rooted modules descriptor := by
  unfold parentPosition Rooted
  split
  · cases hancestor : descriptor.ancestor with
    | none => exact ⟨fun _ _ hsome => (nomatch hsome), fun _ => ⟨none, rfl⟩⟩
    | some ancestor =>
        refine (h.exists_some_typePosition_iff .ancestor).trans ⟨?_, fun hall => hall _ rfl⟩
        rintro hlisted _ hsome
        cases hsome
        exact hlisted
  · split
    · next hempty =>
        constructor
        · rintro ⟨_, hparent⟩
          cases hparent
        · rintro ⟨typeId, htype, hlisted⟩
          rw [htype] at hempty
          exact absurd hempty (h.named hlisted)
    · next hnamed =>
        refine (h.exists_some_typePosition_iff .instanceType).trans
          ⟨fun hlisted => ⟨_, typeId_of_getD_ne hnamed, hlisted⟩, ?_⟩
        rintro ⟨typeId, htype, hlisted⟩
        rw [htype]
        exact hlisted

/-- Whether a module is refused depends on the modules that are listed. -/
theorem Lists.exists_add_iff (h : registry.Lists modules) :
    (∃ grown, registry.add descriptor = .ok grown) ↔ Admitted modules descriptor := by
  constructor
  · rintro ⟨grown, hadd⟩
    rw [add_eq] at hadd
    obtain ⟨parent, hparent, happend⟩ := Outcome.bind_eq_ok.mp hadd
    obtain ⟨hnamed, hnew, -⟩ := append_eq_ok.mp happend
    exact ⟨hnamed, h.get?_eq_none_iff.mp hnew, h.exists_parentPosition_iff.mp ⟨parent, hparent⟩⟩
  · rintro ⟨hnamed, hnew, hrooted⟩
    obtain ⟨parent, hparent⟩ := h.exists_parentPosition_iff.mpr hrooted
    rw [add_eq]
    exact ⟨_, Outcome.bind_eq_ok.mpr ⟨parent, hparent,
      append_eq_ok.mpr ⟨hnamed, h.get?_eq_none_iff.mpr hnew, rfl⟩⟩⟩

theorem descriptor_eq_relevant {parent : Option Nat}
    (h : parent.bind registry.idAt? = descriptor.parent?) :
    registry.descriptor ⟨descriptor.id, descriptor.kind, parent⟩ = descriptor.relevant := by
  obtain ⟨id, kind, ancestor, typeId⟩ := descriptor
  cases kind with
  | typeModule =>
      show Descriptor.mk _ _ (parent.bind registry.idAt?) _ = _
      rw [h]
      rfl
  | instanceModule =>
      show Descriptor.mk _ _ _ (parent.bind registry.idAt?) = _
      rw [h]
      rfl

/-- A module that is registered is listed behind those that were. -/
theorem Lists.add (h : registry.Lists modules) (hadd : registry.add descriptor = .ok grown) :
    grown.Lists (modules ++ [descriptor]) := by
  rw [add_eq] at hadd
  obtain ⟨parent, hparent, happend⟩ := Outcome.bind_eq_ok.mp hadd
  obtain ⟨hattaches, hid⟩ := h.grown.of_parentPosition hparent
  have hgrown := h.grown.of_append hattaches happend
  obtain ⟨-, -, rfl⟩ := append_eq_ok.mp happend
  have hextends := List.prefix_append registry.entries [⟨descriptor.id, descriptor.kind, parent⟩]
  refine ⟨hgrown, ?_⟩
  rw [Registry.listed, List.map_append, List.map_append, List.map_singleton, List.map_singleton,
    ← h.listed, descriptor_eq_relevant ((parentId?_of_attaches hattaches hextends).trans hid)]
  congr 1
  exact List.map_congr_left fun entry hmem => h.grown.descriptor_of_prefix hextends hmem

theorem names_of_add (hadd : registry.add descriptor = .ok grown) :
    grown.aliases = registry.aliases ∧ grown.namespaces = registry.namespaces := by
  rw [add_eq] at hadd
  obtain ⟨parent, -, happend⟩ := Outcome.bind_eq_ok.mp hadd
  obtain ⟨-, -, rfl⟩ := append_eq_ok.mp happend
  exact ⟨rfl, rfl⟩

/-! ## Registering a row -/

/-- A row of modules can be registered exactly if each is admitted in its turn. -/
theorem Lists.exists_foldlM_add_iff (h : registry.Lists modules) {more : List Descriptor} :
    (∃ grown, more.foldlM Registry.add registry = .ok grown) ↔ Orderly modules more := by
  induction more generalizing registry modules with
  | nil => exact ⟨fun _ => trivial, fun _ => ⟨registry, rfl⟩⟩
  | cons first rest ih =>
      rw [List.foldlM_cons, Orderly, ← h.exists_add_iff]
      constructor
      · rintro ⟨grown, hrow⟩
        obtain ⟨next, hadd, hrest⟩ := Outcome.bind_eq_ok.mp hrow
        exact ⟨⟨next, hadd⟩, (ih (h.add hadd)).mp ⟨grown, hrest⟩⟩
      · rintro ⟨⟨next, hadd⟩, hrest⟩
        obtain ⟨grown, hgrown⟩ := (ih (h.add hadd)).mpr hrest
        exact ⟨grown, Outcome.bind_eq_ok.mpr ⟨next, hadd, hgrown⟩⟩

theorem Lists.foldlM_add (h : registry.Lists modules) {more : List Descriptor}
    (hrow : more.foldlM Registry.add registry = .ok grown) : grown.Lists (modules ++ more) := by
  induction more generalizing registry modules with
  | nil =>
      cases hrow
      rw [List.append_nil]
      exact h
  | cons first rest ih =>
      obtain ⟨next, hadd, hrest⟩ := Outcome.bind_eq_ok.mp hrow
      have h := ih (h.add hadd) hrest
      rw [List.append_assoc] at h
      exact h

theorem lists_empty : ({} : Registry).Lists [] where
  grown := .empty
  listed := rfl

end Lists

end Registry

end Strata
