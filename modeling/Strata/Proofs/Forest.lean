import Mathlib.Order.WellFoundedSet
import Strata.Proofs.Admission

/-!
# Modules in any order

The modules of a manifest are registered parents first. If they form a forest, in which every
module has an id of its own, every parent is a type that is listed and no type is above
itself, there is always one that can be registered next: the modules that are left are
finitely many, so some type among them has no other of them above it. And whatever order
succeeds shows that they are a forest, since a module that is admitted adds no cycle: nothing
that is there descends from it.

A forest stays one under any permutation, so the order of the list has no say in whether
registration succeeds. It has none in the outcome either. The entries stand in another order,
but what a registry answers is asked by id, and its descriptors are the same.
-/

namespace Strata

/-! ## Forests -/

/-- The type `id` is listed with this ancestor. -/
def DescendsFrom (modules : List Descriptor) (id ancestor : String) : Prop :=
  ∃ listed ∈ modules, listed.kind = .typeModule ∧ listed.id = id
    ∧ listed.ancestor = some ancestor

/-- Modules that can be registered in some order. -/
structure Forest (modules : List Descriptor) : Prop where
  named : ∀ listed ∈ modules, listed.id ≠ ""
  distinct : (modules.map Descriptor.id).Nodup
  rooted : ∀ listed ∈ modules, Rooted modules listed
  acyclic : ∀ id, ¬ Relation.TransGen (DescendsFrom modules) id id

section Forest

variable {modules earlier pending : List Descriptor} {descriptor : Descriptor}

theorem DescendsFrom.mono {more : List Descriptor} {id ancestor : String}
    (h : DescendsFrom modules id ancestor) (hmore : modules ⊆ more) :
    DescendsFrom more id ancestor := by
  obtain ⟨listed, hmem, hlisted⟩ := h
  exact ⟨listed, hmore hmem, hlisted⟩

theorem Forest.perm {other : List Descriptor} (h : Forest modules) (hperm : other.Perm modules) :
    Forest other where
  named := fun listed hmem => h.named listed (hperm.mem_iff.mp hmem)
  distinct := (hperm.map Descriptor.id).nodup_iff.mpr h.distinct
  rooted := fun listed hmem =>
    (h.rooted listed (hperm.mem_iff.mp hmem)).mono hperm.symm.subset
  acyclic := fun id hcycle =>
    h.acyclic id (Relation.TransGen.mono (fun _ _ hdescends => hdescends.mono hperm.subset)
      _ _ hcycle)

theorem forest_nil : Forest [] where
  named := List.forall_mem_nil _
  distinct := .nil
  rooted := List.forall_mem_nil _
  acyclic := by
    intro id hcycle
    cases hcycle with
    | single h => obtain ⟨_, hmem, -⟩ := h; cases hmem
    | tail _ h => obtain ⟨_, hmem, -⟩ := h; cases hmem

/-- What an admitted module, or one that was there, descends from was there. -/
theorem ne_of_descendsFrom (h : Forest earlier) (hadmitted : Admitted earlier descriptor)
    {id ancestor : String} (hdescends : DescendsFrom (earlier ++ [descriptor]) id ancestor) :
    ancestor ≠ descriptor.id := by
  obtain ⟨listed, hmem, hkind, -, hancestor⟩ := hdescends
  have hrooted : Rooted earlier listed := by
    rcases List.mem_append.mp hmem with hfront | hlast
    · exact h.rooted listed hfront
    · cases List.mem_singleton.mp hlast
      exact hadmitted.rooted
  rw [Rooted, hkind] at hrooted
  obtain ⟨other, hother, rfl, -⟩ := hrooted ancestor hancestor
  exact hadmitted.new other hother

theorem Forest.concat (h : Forest earlier) (hadmitted : Admitted earlier descriptor) :
    Forest (earlier ++ [descriptor]) where
  named := List.forall_mem_append.mpr
    ⟨h.named, List.forall_mem_singleton.mpr hadmitted.named⟩
  distinct := by
    rw [List.map_append, List.nodup_append]
    refine ⟨h.distinct, List.nodup_singleton _, fun id hid last hlast hsame => ?_⟩
    obtain ⟨other, hother, rfl⟩ := List.mem_map.mp hid
    cases List.mem_singleton.mp hlast
    exact hadmitted.new other hother hsame
  rooted := List.forall_mem_append.mpr
    ⟨fun listed hmem => (h.rooted listed hmem).mono (List.subset_append_left _ _),
      List.forall_mem_singleton.mpr (hadmitted.rooted.mono (List.subset_append_left _ _))⟩
  acyclic := by
    -- A way up that does not start at the new module never comes to it, and so it was
    -- there before; and a way up that ends where it starts does not start there.
    have hbefore : ∀ {id ancestor}, Relation.TransGen (DescendsFrom (earlier ++ [descriptor]))
        id ancestor → id ≠ descriptor.id →
        ancestor ≠ descriptor.id ∧ Relation.TransGen (DescendsFrom earlier) id ancestor := by
      have hstep : ∀ {id ancestor}, DescendsFrom (earlier ++ [descriptor]) id ancestor →
          id ≠ descriptor.id → DescendsFrom earlier id ancestor := by
        rintro id ancestor ⟨listed, hmem, hkind, rfl, hancestor⟩ hne
        rcases List.mem_append.mp hmem with hfront | hlast
        · exact ⟨listed, hfront, hkind, rfl, hancestor⟩
        · cases List.mem_singleton.mp hlast
          exact absurd rfl hne
      intro id ancestor hup hne
      induction hup with
      | single hdescends =>
          exact ⟨ne_of_descendsFrom h hadmitted hdescends, .single (hstep hdescends hne)⟩
      | tail _ hdescends ih =>
          exact ⟨ne_of_descendsFrom h hadmitted hdescends, ih.2.tail (hstep hdescends ih.1)⟩
    intro id hcycle
    have hne : id ≠ descriptor.id := by
      cases hcycle with
      | single hdescends => exact ne_of_descendsFrom h hadmitted hdescends
      | tail _ hdescends => exact ne_of_descendsFrom h hadmitted hdescends
    exact h.acyclic id (hbefore hcycle hne).2

/-- A row that can be registered after a forest makes a forest with it. -/
theorem Forest.of_orderly (h : Forest earlier) (horderly : Orderly earlier pending) :
    Forest (earlier ++ pending) := by
  induction pending generalizing earlier with
  | nil =>
      rw [List.append_nil]
      exact h
  | cons first rest ih =>
      have h := ih (h.concat horderly.1) horderly.2
      rw [List.append_assoc] at h
      exact h

/-! ## The next module -/

theorem Manifest.isReady_eq_false (h : Manifest.isReady pending descriptor = false) :
    ∃ parent, descriptor.parent? = some parent ∧ ∃ listed ∈ pending, listed.id = parent := by
  unfold Manifest.isReady at h
  cases hparent : descriptor.parent? with
  | none =>
      rw [hparent] at h
      cases h
  | some parent =>
      rw [hparent, Option.all_some, List.all_eq_false] at h
      obtain ⟨listed, hmem, hsame⟩ := h
      exact ⟨parent, rfl, listed, hmem, by simpa using hsame⟩

theorem Manifest.parent_notMem_of_isReady (h : Manifest.isReady pending descriptor = true)
    {parent : String} (hparent : descriptor.parent? = some parent) :
    ∀ listed ∈ pending, listed.id ≠ parent := by
  rw [Manifest.isReady, hparent, Option.all_some, List.all_eq_true] at h
  exact fun listed hmem => by simpa using h listed hmem

/-- In a part of a forest that holds the parents of all of its modules, every type has a
type above it in the part. So there is no such part, but the empty one. -/
theorem Forest.eq_nil_of_closed (h : Forest modules) (hpart : pending ⊆ modules)
    (hclosed : ∀ listed ∈ pending, ∃ parent, listed.parent? = some parent
      ∧ ListsType pending parent) : pending = [] := by
  let above (id other : String) : Prop := Relation.TransGen (DescendsFrom modules) other id
  have : IsStrictOrder String above :=
    { irrefl := h.acyclic, trans := fun _ _ _ hxy hyz => hyz.trans hxy }
  have hfinite : {id | ListsType pending id}.Finite := by
    refine (List.finite_toSet (pending.map Descriptor.id)).subset ?_
    rintro id ⟨listed, hmem, rfl, -⟩
    exact List.mem_map_of_mem hmem
  have hnone : ∀ id, ¬ ListsType pending id := fun id hid => by
    have hwell : {id | ListsType pending id}.WellFoundedOn above := hfinite.wellFoundedOn
    refine hwell.induction hid (P := fun _ => False) fun id hid ih => ?_
    obtain ⟨listed, hmem, rfl, hkind⟩ := hid
    obtain ⟨parent, hparent, hlisted⟩ := hclosed listed hmem
    rw [Descriptor.parent?, hkind] at hparent
    exact ih parent hlisted (.single ⟨listed, hpart hmem, hkind, rfl, hparent⟩)
  cases pending with
  | nil => rfl
  | cons first rest =>
      obtain ⟨parent, -, hlisted⟩ := hclosed first List.mem_cons_self
      exact absurd hlisted (hnone parent)

theorem Forest.exists_ready (h : Forest modules) (hpart : pending ⊆ modules)
    (hne : pending ≠ []) : ∃ listed ∈ pending, Manifest.isReady pending listed = true := by
  by_contra hnone
  refine hne (h.eq_nil_of_closed hpart fun listed hmem => ?_)
  have hwaits : Manifest.isReady pending listed = false := by
    cases hready : Manifest.isReady pending listed with
    | false => rfl
    | true => exact absurd ⟨listed, hmem, hready⟩ hnone
  obtain ⟨parent, hparent, other, hother, rfl⟩ := Manifest.isReady_eq_false hwaits
  obtain ⟨type, htype, hid, hkind⟩ :=
    (rooted_iff.mp (h.rooted listed (hpart hmem))).2 other.id hparent
  -- The parent is a type of the forest and the id of a module that is left: the same one.
  cases List.inj_on_of_nodup_map h.distinct htype (hpart hother) hid
  exact ⟨other.id, hparent, other, hother, rfl, hkind⟩

/-- A module of a forest that is ready can be registered after all that are not left. -/
theorem Forest.admitted_of_ready (h : Forest (earlier ++ pending)) (hmem : descriptor ∈ pending)
    (hready : Manifest.isReady pending descriptor = true) : Admitted earlier descriptor := by
  have hwhole := List.mem_append_right earlier hmem
  have hdistinct := h.distinct
  rw [List.map_append, List.nodup_append] at hdistinct
  refine ⟨h.named descriptor hwhole, fun other hother hsame => ?_, ?_⟩
  · exact hdistinct.2.2 _ (List.mem_map_of_mem hother) _ (List.mem_map_of_mem hmem) hsame
  · obtain ⟨hsome, hparents⟩ := rooted_iff.mp (h.rooted descriptor hwhole)
    refine rooted_iff.mpr ⟨hsome, fun parent hparent => ?_⟩
    obtain ⟨listed, hlisted, hid, hkind⟩ := hparents parent hparent
    rcases List.mem_append.mp hlisted with hfront | hback
    · exact ⟨listed, hfront, hid, hkind⟩
    · exact absurd hid (Manifest.parent_notMem_of_isReady hready hparent listed hback)

theorem Forest.orderly_parentsFirst (h : Forest (earlier ++ pending)) :
    Orderly earlier (Manifest.parentsFirst pending) := by
  fun_induction Manifest.parentsFirst pending generalizing earlier with
  | case1 => trivial
  | case2 first rest ready found ih =>
      have hready := h.admitted_of_ready (List.mem_of_find?_eq_some found)
        (List.find?_some found)
      refine ⟨hready, ih (h.perm ?_)⟩
      rw [List.append_assoc, List.singleton_append]
      exact (Manifest.cons_eraseP_perm found).append_left earlier
  | case3 first rest found ih =>
      obtain ⟨listed, hmem, hready⟩ :=
        h.exists_ready (List.subset_append_right earlier _) (List.cons_ne_nil first rest)
      exact absurd hready (List.find?_eq_none.mp found listed hmem)

theorem orderly_parentsFirst_iff :
    Orderly [] (Manifest.parentsFirst modules) ↔ Forest modules := by
  constructor
  · intro horderly
    exact (forest_nil.of_orderly horderly).perm (Manifest.parentsFirst_perm modules).symm
  · exact @Forest.orderly_parentsFirst [] modules

end Forest

/-! ## The registry of a manifest -/

/-- No name, and nothing that a name stands for, is empty. -/
def Named (names : Fields String) : Prop :=
  ∀ entry ∈ names, entry.1 ≠ "" ∧ entry.2 ≠ ""

namespace Registry

variable {registry grown : Registry}

/-- Names that are added one after the other to what a part of a registry holds. -/
theorem foldlM_names_eq_ok {names : List (String × String)}
    {add : Registry → String → String → Outcome Registry}
    {put : String → String → List (String × String) → List (String × String)}
    {held : Registry → List (String × String)}
    {holding : Registry → List (String × String) → Registry}
    (hadd : ∀ registry name target grown, add registry name target = .ok grown ↔
      (name ≠ "" ∧ target ≠ "")
        ∧ grown = holding registry (put name target (held registry)))
    (hheld : ∀ registry fields, held (holding registry fields) = fields)
    (hholding : ∀ registry fields more,
      holding (holding registry fields) more = holding registry more)
    (hself : ∀ registry, holding registry (held registry) = registry) :
    names.foldlM (fun registry (name, target) => add registry name target) registry = .ok grown
      ↔ Named names ∧ grown = holding registry
        (names.foldl (fun fields entry => put entry.1 entry.2 fields) (held registry)) := by
  have hfold : names.foldl (fun registry entry =>
        holding registry (put entry.1 entry.2 (held registry))) registry
      = holding registry
        (names.foldl (fun fields entry => put entry.1 entry.2 fields) (held registry)) := by
    induction names generalizing registry with
    | nil => exact (hself registry).symm
    | cons entry rest ih => rw [List.foldl_cons, List.foldl_cons, ih, hheld, hholding]
  rw [← hfold]
  exact Outcome.foldlM_eq_ok fun registry entry grown => hadd registry entry.1 entry.2 grown

theorem foldlM_addAlias_eq_ok {names : Fields String} :
    names.foldlM (fun registry (id, target) => registry.addAlias id target) registry = .ok grown
      ↔ Named names ∧ grown = { registry with
        aliases := names.foldl (fun fields entry => Fields.put entry.1 entry.2 fields)
          registry.aliases } :=
  @foldlM_names_eq_ok registry grown names addAlias Fields.put aliases
    (fun registry aliases => { registry with aliases }) (fun _ _ _ _ => addAlias_eq_ok)
    (fun _ _ => rfl) (fun _ _ _ => rfl) fun _ => rfl

theorem foldlM_addNamespace_eq_ok {names : List (String × String)} :
    names.foldlM (fun registry (start, target) => registry.addNamespace start target) registry
      = .ok grown ↔ Named names ∧ grown = { registry with
        namespaces := names.foldl (fun namespaces entry => mapped entry.1 entry.2 namespaces)
          registry.namespaces } :=
  @foldlM_names_eq_ok registry grown names addNamespace mapped namespaces
    (fun registry namespaces => { registry with namespaces }) (fun _ _ _ _ => addNamespace_eq_ok)
    (fun _ _ => rfl) (fun _ _ _ => rfl) fun _ => rfl

end Registry

namespace Manifest

variable {manifest : Manifest} {registry : Registry}

theorem registry_eq_ok :
    manifest.registry = .ok registry ↔
      Named manifest.aliases ∧ Named manifest.namespaces
        ∧ ∃ base, (parentsFirst manifest.modules).foldlM Registry.add {} = .ok base
          ∧ registry = { base with
            aliases := Fields.ofList manifest.aliases
            namespaces := manifest.namespaces.foldl
              (fun namespaces entry => Registry.mapped entry.1 entry.2 namespaces) [] } := by
  have hnames : ∀ base, (parentsFirst manifest.modules).foldlM Registry.add {} = .ok base →
      base.aliases = [] ∧ base.namespaces = [] := by
    intro base hbase
    refine Outcome.of_foldlM_eq_ok (motive := fun registry : Registry =>
      registry.aliases = [] ∧ registry.namespaces = [])
      (fun descriptor _ before after h hadd => ?_) ⟨rfl, rfl⟩ hbase
    obtain ⟨haliases, hnamespaces⟩ := Registry.names_of_add hadd
    exact ⟨haliases.trans h.1, hnamespaces.trans h.2⟩
  rw [Manifest.registry, Outcome.bind_eq_ok]
  constructor
  · rintro ⟨base, hbase, h⟩
    obtain ⟨aliased, haliased, h⟩ := Outcome.bind_eq_ok.mp h
    obtain ⟨haliases, rfl⟩ := Registry.foldlM_addAlias_eq_ok.mp haliased
    obtain ⟨hnamespaces, rfl⟩ := Registry.foldlM_addNamespace_eq_ok.mp h
    refine ⟨haliases, hnamespaces, base, hbase, ?_⟩
    dsimp only
    rw [(hnames base hbase).1, (hnames base hbase).2]
    rfl
  · rintro ⟨haliases, hnamespaces, base, hbase, rfl⟩
    refine ⟨base, hbase, Outcome.bind_eq_ok.mpr
      ⟨_, Registry.foldlM_addAlias_eq_ok.mpr ⟨haliases, rfl⟩,
        Registry.foldlM_addNamespace_eq_ok.mpr ⟨hnamespaces, ?_⟩⟩⟩
    dsimp only
    rw [(hnames base hbase).1, (hnames base hbase).2]
    rfl

theorem exists_registry_iff :
    (∃ registry, manifest.registry = .ok registry) ↔
      Forest manifest.modules ∧ Named manifest.aliases ∧ Named manifest.namespaces := by
  rw [← orderly_parentsFirst_iff, ← Registry.lists_empty.exists_foldlM_add_iff]
  constructor
  · rintro ⟨registry, hregistry⟩
    obtain ⟨haliases, hnamespaces, base, hbase, -⟩ := registry_eq_ok.mp hregistry
    exact ⟨⟨base, hbase⟩, haliases, hnamespaces⟩
  · rintro ⟨⟨base, hbase⟩, haliases, hnamespaces⟩
    exact ⟨_, registry_eq_ok.mpr ⟨haliases, hnamespaces, base, hbase, rfl⟩⟩

theorem lists_of_registry (h : manifest.registry = .ok registry) :
    registry.Lists (parentsFirst manifest.modules)
      ∧ registry.aliases = Fields.ofList manifest.aliases
      ∧ registry.namespaces = manifest.namespaces.foldl
        (fun namespaces entry => Registry.mapped entry.1 entry.2 namespaces) [] := by
  obtain ⟨-, -, base, hbase, rfl⟩ := registry_eq_ok.mp h
  obtain ⟨hgrown, hlisted⟩ := Registry.lists_empty.foldlM_add hbase
  exact ⟨⟨⟨hgrown.indexed, hgrown.placed, hgrown.named, hgrown.linked⟩, hlisted⟩, rfl, rfl⟩

end Manifest

/-! ## The order of the modules -/

theorem Metadata.chain_congr {metadata other : Metadata}
    (h : ∀ id, other.describe? id = metadata.describe? id) (id : String) :
    other.chain id = metadata.chain id := by
  have hwalk : ∀ chain next, other.walk id chain next = metadata.walk id chain next := by
    intro chain next
    fun_induction Metadata.walk metadata id chain next with
    | case1 chain => rw [walk]
    | case2 chain ancestor hmem => rw [walk, if_pos hmem]
    | case3 chain ancestor hnew ih =>
        rw [walk, if_neg hnew, ancestor?, h ancestor]
        exact ih
  rw [chain, chain, h id]
  cases metadata.describe? id with
  | none => rfl
  | some descriptor =>
      dsimp only
      rw [hwalk]

namespace Registry

variable {registry other : Registry}

theorem Grown.describe?_eq_some_iff (h : Grown registry) {id : String} {descriptor : Descriptor} :
    registry.describe? id = some descriptor ↔
      descriptor ∈ registry.listed ∧ descriptor.id = id := by
  constructor
  · intro hdescribe
    obtain ⟨entry, hfound, rfl⟩ := Option.map_eq_some_iff.mp hdescribe
    refine ⟨List.mem_map_of_mem (mem_of_find? hfound), ?_⟩
    rw [descriptor_id, h.id_of_find? hfound]
  · rintro ⟨hmem, rfl⟩
    obtain ⟨entry, hentry, rfl⟩ := List.mem_map.mp hmem
    rw [descriptor_id, describe?, h.find?_of_mem hentry]
    rfl

theorem Grown.canonical?_congr (h : Grown registry) (hother : Grown other)
    (hdescribe : ∀ id, other.describe? id = registry.describe? id)
    (haliases : other.aliases = registry.aliases)
    (hnamespaces : other.namespaces = registry.namespaces) (id : String) :
    other.canonical? id = registry.canonical? id := by
  have hindexed : Fields.has id other.index = Fields.has id registry.index := by
    rw [Fields.has, Fields.has, Bool.eq_iff_iff, ← hother.isSome_describe?_iff,
      ← h.isSome_describe?_iff, hdescribe]
  rw [canonical?, canonical?, hindexed, haliases, namespaceOf?, namespaceOf?, hnamespaces]

end Registry

/-- The registry of a manifest can be made exactly if its modules form a forest and no name
is empty or stands for the empty id. In which order the modules are listed makes no
difference, neither to this nor to what the registry answers. -/
theorem Manifest.registry_of_forest (manifest : Manifest) :
    ((∃ registry, manifest.registry = .ok registry) ↔
      Forest manifest.modules ∧ Named manifest.aliases ∧ Named manifest.namespaces)
    ∧ ∀ modules : List Descriptor, modules.Perm manifest.modules →
      let permuted : Manifest := { manifest with modules }
      ((∃ registry, permuted.registry = .ok registry) ↔
        ∃ registry, manifest.registry = .ok registry)
      ∧ ∀ registry other, manifest.registry = .ok registry → permuted.registry = .ok other →
        ∀ id, other.canonical? id = registry.canonical? id
          ∧ other.describe? id = registry.describe? id
          ∧ other.metadata.chain id = registry.metadata.chain id := by
  refine ⟨exists_registry_iff, fun modules hperm => ⟨?_, ?_⟩⟩
  · rw [exists_registry_iff, exists_registry_iff]
    exact and_congr_left' ⟨fun h => h.perm hperm.symm, fun h => h.perm hperm⟩
  · intro registry other hregistry hother id
    obtain ⟨⟨hgrown, hlisted⟩, haliases, hnamespaces⟩ := lists_of_registry hregistry
    obtain ⟨⟨hgrown', hlisted'⟩, haliases', hnamespaces'⟩ := lists_of_registry hother
    have hsame : other.listed.Perm registry.listed := by
      rw [hlisted, hlisted']
      exact ((parentsFirst_perm modules).trans
        (hperm.trans (parentsFirst_perm manifest.modules).symm)).map Descriptor.relevant
    have hdescribe : ∀ id, other.describe? id = registry.describe? id := fun id =>
      Option.ext fun descriptor => by
        rw [hgrown'.describe?_eq_some_iff, hgrown.describe?_eq_some_iff, hsame.mem_iff]
    exact ⟨hgrown.canonical?_congr hgrown' hdescribe (haliases'.trans haliases.symm)
        (hnamespaces'.trans hnamespaces.symm) id,
      hdescribe id, Metadata.chain_congr hdescribe id⟩

end Strata
