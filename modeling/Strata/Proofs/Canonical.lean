import Strata.Proofs.Account
import Strata.Proofs.Forest

/-!
# Canonical ids

The canonical id of an id is looked up in one step: a registered id stands for itself, any
other for what its alias says or, without one, for its longest mapped prefix replaced. What
is found is not looked up again. It is at rest if it is registered, for good, or if neither
an alias nor a prefix leads it to anything else; otherwise it is led on, and looking it up
gives another id.

A rule is kept under the canonical id of what its reference denotes, and a request asks
for the canonical id of what it names. So a rule and a request that name the same id meet.
A request that names the canonical id itself meets them unless that id is led on; and then
it misses them, since no id that is led on is in a chain.
-/

namespace Strata

theorem Named.put {names : Fields String} {name target : String} (h : Named names)
    (hname : name ≠ "") (htarget : target ≠ "") : Named (Fields.put name target names) := by
  intro entry hmem
  rcases Fields.mem_of_mem_put hmem with rfl | hold
  · exact ⟨hname, htarget⟩
  · exact h entry hold

theorem Named.mapped {namespaces : List (String × String)} {start target : String}
    (h : Named namespaces) (hstart : start ≠ "") (htarget : target ≠ "") :
    Named (Registry.mapped start target namespaces) := by
  intro entry hmem
  rcases List.mem_append.mp (List.mem_mergeSort.mp hmem) with hold | hnew
  · exact h entry (List.mem_filter.mp hold).1
  · cases List.mem_singleton.mp hnew
    exact ⟨hstart, htarget⟩

namespace Registry

variable {registry grown : Registry}

/-! ## Names -/

/-- No alias, no prefix and nothing that they stand for is empty. -/
structure NamesNamed (registry : Registry) : Prop where
  aliases : Named registry.aliases
  namespaces : Named registry.namespaces

theorem NamesNamed.perform {command : Command} (h : NamesNamed registry)
    (hperform : registry.perform command = .ok grown) : NamesNamed grown := by
  rcases perform_cases hperform with
    ⟨entry, -, -, happend⟩ | ⟨id, target, -, hnamed, rfl⟩ | ⟨start, target, -, hnamed, rfl⟩
  · obtain ⟨-, -, rfl⟩ := append_eq_ok.mp happend
    exact ⟨h.aliases, h.namespaces⟩
  · exact ⟨h.aliases.put hnamed.1 hnamed.2, h.namespaces⟩
  · exact ⟨h.aliases, h.namespaces.mapped hnamed.1 hnamed.2⟩

theorem NamesNamed.commands (h : NamesNamed registry) (commands : List Command) :
    NamesNamed (commands.foldl after registry) :=
  preserved_by_commands NamesNamed.perform h commands

theorem namesNamed_afterCommands (commands : List Command) :
    NamesNamed (afterCommands commands) :=
  NamesNamed.commands ⟨fun _ hmem => (List.not_mem_nil hmem).elim,
    fun _ hmem => (List.not_mem_nil hmem).elim⟩ commands

/-! ## One step -/

theorem of_namespaceOf? {id start target : String}
    (h : registry.namespaceOf? id = some (start, target)) :
    (start, target) ∈ registry.namespaces ∧ ∃ rest, id = start ++ rest := by
  rw [namespaceOf?] at h
  have hprefix := List.find?_some h
  obtain ⟨rest, hrest⟩ := List.isPrefixOf_iff_prefix.mp hprefix
  exact ⟨List.mem_of_find?_eq_some h, String.ofList rest, String.toList_inj.mp (by
    rw [String.toList_append, String.toList_ofList, hrest])⟩

theorem drop_append (start rest : String) :
    String.ofList ((start ++ rest).toList.drop start.toList.length) = rest := by
  rw [String.toList_append, List.drop_left, String.ofList_toList]

/-- How an id comes to its canonical id. -/
inductive Leads (registry : Registry) : String → String → Prop
  | registered {id : String} (h : Fields.has id registry.index = true) : Leads registry id id
  | byAlias {id target : String} (hnew : Fields.has id registry.index = false)
      (h : Fields.get? id registry.aliases = some target) : Leads registry id target
  | byPrefix {start target rest : String}
      (hnew : Fields.has (start ++ rest) registry.index = false)
      (hplain : Fields.get? (start ++ rest) registry.aliases = none)
      (h : registry.namespaceOf? (start ++ rest) = some (start, target)) :
      Leads registry (start ++ rest) (target ++ rest)

theorem leads_of_canonical? {id canonical : String} (h : registry.canonical? id = some canonical) :
    registry.Leads id canonical := by
  rw [canonical?] at h
  cases hindexed : Fields.has id registry.index with
  | true =>
      rw [hindexed, if_pos rfl] at h
      cases h
      exact .registered hindexed
  | false =>
      rw [hindexed, if_neg Bool.false_ne_true] at h
      cases halias : Fields.get? id registry.aliases with
      | some target =>
          rw [halias] at h
          cases h
          exact .byAlias hindexed halias
      | none =>
          rw [halias] at h
          obtain ⟨⟨start, target⟩, hprefix, himage⟩ := Option.map_eq_some_iff.mp h
          obtain ⟨-, rest, rfl⟩ := of_namespaceOf? hprefix
          dsimp only at himage
          rw [drop_append] at himage
          rw [← himage]
          exact .byPrefix hindexed halias hprefix

/-- An id is led on if looking it up gives another one: it is not registered, and its alias
or, without one, its longest mapped prefix stands for something else. -/
def LedOn (registry : Registry) (id : String) : Prop :=
  registry.describe? id = none
    ∧ ((∃ target, Fields.get? id registry.aliases = some target ∧ target ≠ id)
      ∨ Fields.get? id registry.aliases = none
        ∧ ∃ start target, registry.namespaceOf? id = some (start, target) ∧ target ≠ start)

theorem Grown.has_eq_false_iff (h : Grown registry) {id : String} :
    Fields.has id registry.index = false ↔ registry.describe? id = none := by
  rw [← Bool.not_eq_true, Fields.has, ← h.isSome_describe?_iff, Bool.not_eq_true,
    Option.isSome_eq_false_iff, Option.isNone_iff_eq_none]

theorem Grown.canonical?_of_describe? (h : Grown registry) {id : String}
    (hthere : (registry.describe? id).isSome) : registry.canonical? id = some id := by
  have hindexed : Fields.has id registry.index = true := h.isSome_describe?_iff.mp hthere
  rw [canonical?, if_pos hindexed]

/-- What is not led on is its own canonical id, if it has any. -/
theorem Grown.atRest_iff (h : Grown registry) {id : String} :
    registry.canonical? id = none ∨ registry.canonical? id = some id ↔ ¬ registry.LedOn id := by
  rw [LedOn, ← h.has_eq_false_iff]
  cases hindexed : Fields.has id registry.index with
  | true =>
      rw [canonical?, hindexed, if_pos rfl]
      exact ⟨fun _ hled => Bool.noConfusion hled.1, fun _ => .inr rfl⟩
  | false =>
      rw [canonical?, hindexed, if_neg Bool.false_ne_true]
      cases halias : Fields.get? id registry.aliases with
      | some target => simp
      | none =>
          cases hprefix : registry.namespaceOf? id with
          | none => simp
          | some found =>
              obtain ⟨start, target⟩ := found
              obtain ⟨-, rest, rfl⟩ := of_namespaceOf? hprefix
              simp

theorem Grown.named_of_leads (h : Grown registry) (hnames : NamesNamed registry)
    {id canonical : String} (hleads : registry.Leads id canonical) : id ≠ "" ∧ canonical ≠ "" := by
  cases hleads with
  | registered hindexed =>
      obtain ⟨position, hposition⟩ := Option.isSome_iff_exists.mp hindexed
      obtain ⟨entry, hentry, rfl⟩ := h.indexed id position hposition
      have hnamed := h.named entry (List.mem_of_getElem? hentry)
      exact ⟨hnamed, hnamed⟩
  | byAlias hnew halias => exact hnames.aliases _ (Fields.mem_of_get? halias)
  | byPrefix hnew hplain hprefix =>
      obtain ⟨hstart, htarget⟩ := hnames.namespaces _ (of_namespaceOf? hprefix).1
      exact ⟨fun hempty => hstart (String.append_eq_empty_iff.mp hempty).1,
        fun hempty => htarget (String.append_eq_empty_iff.mp hempty).1⟩

/-- Whatever is in a chain is registered, but for the module that the chain is for. -/
theorem Grown.describe?_of_mem_chain (h : Grown registry) {id other : String}
    {chain : List String} (hchain : registry.metadata.chain id = .ok chain)
    (hmem : other ∈ chain) : other = id ∨ (registry.describe? other).isSome := by
  cases hdescribe : registry.describe? id with
  | none =>
      rw [chain_alone fun descriptor hsome => by rw [hdescribe] at hsome; cases hsome] at hchain
      cases hchain
      exact .inl (List.mem_singleton.mp hmem)
  | some descriptor =>
      cases hkind : descriptor.kind with
      | instanceModule =>
          rw [chain_of_instance hdescribe hkind] at hchain
          cases hchain
          exact .inl (List.mem_singleton.mp hmem)
      | typeModule =>
          obtain ⟨above, hlineage, hwithin, hnodup⟩ := h.lineage_of_type hdescribe hkind
          rw [Metadata.chain_of_lineage hdescribe hkind hlineage hnodup] at hchain
          cases hchain
          rcases List.mem_append.mp hmem with habove | hlast
          · exact .inr (hwithin other habove)
          · exact .inl (List.mem_singleton.mp hlast)

end Registry

namespace Engine

section Registry

variable {engine : Engine} {registry : Registry} (hgrown : registry.Grown)
  (hnames : registry.NamesNamed) (hmetadata : engine.metadata = registry.metadata)

include hgrown hnames hmetadata

theorem canonicalId_eq (id : String) :
    engine.canonicalId id = .ok ((registry.canonical? id).getD id) := by
  have hlookup : engine.metadata.canonical? id = registry.canonical? id := by rw [hmetadata]; rfl
  rw [canonicalId, hlookup]
  cases hcanonical : registry.canonical? id with
  | none => rfl
  | some canonical =>
      exact if_neg (hgrown.named_of_leads hnames (Registry.leads_of_canonical? hcanonical)).2

/-- Over a registry every request that names a module has a plan. -/
theorem exists_plan {query : Query} (hnamed : query.moduleId ≠ "") :
    ∃ plan, engine.plan query = .ok plan := by
  have hcanonical := canonicalId_eq hgrown hnames hmetadata
  obtain ⟨annotationId, hannotation⟩ : ∃ annotationId,
      engine.canonicalAnnotation query.annotationId = .ok annotationId := by
    cases query.annotationId with
    | none => exact ⟨none, rfl⟩
    | some asked =>
        by_cases hempty : asked = ""
        · exact ⟨none, if_pos hempty⟩
        · exact ⟨_, by rw [canonicalAnnotation_some hempty, hcanonical]; rfl⟩
  obtain ⟨chain, hchain⟩ : ∃ chain, engine.chainOf query.inherit
      ((registry.canonical? query.moduleId).getD query.moduleId) = .ok chain := by
    rw [chainOf, hmetadata]
    split
    · exact hgrown.exists_chain _
    · exact ⟨_, rfl⟩
  exact ⟨_, Outcome.bind_eq_ok.mpr ⟨(), if_neg hnamed, Outcome.bind_eq_ok.mpr
    ⟨_, hcanonical _, Outcome.bind_eq_ok.mpr ⟨annotationId, hannotation,
      Outcome.bind_eq_ok.mpr ⟨chain, hchain, rfl⟩⟩⟩⟩⟩

omit hnames in
/-- Whatever a plan asks for is registered, but for its module. -/
theorem describe?_of_mem_chain {query : Query} {plan : Plan} (h : engine.plan query = .ok plan) :
    ∀ id ∈ plan.chain, id = plan.moduleId ∨ (registry.describe? id).isSome := by
  have hchain := (of_plan_eq_ok h).2.2.1
  rw [chainOf, hmetadata] at hchain
  split at hchain
  · exact fun id => hgrown.describe?_of_mem_chain hchain
  · rw [← Except.ok.inj hchain]
    exact fun id hmem => .inl (List.mem_singleton.mp hmem)

/-- A request that names what a canonical id was found for, or the canonical id itself, asks
for it, but for the latter if it is led on. -/
theorem mem_chain_iff {query : Query} {plan : Plan} (hplan : engine.plan query = .ok plan)
    {id canonical : String} (hcanonical : registry.canonical? id = some canonical)
    (hasked : query.moduleId = id ∨ query.moduleId = canonical) :
    canonical ∈ plan.chain ↔ query.moduleId = id ∨ ¬ registry.LedOn canonical := by
  have hself := moduleId_mem_chain hplan
  have hmodule := (of_plan_eq_ok hplan).1
  rw [canonicalId_eq hgrown hnames hmetadata] at hmodule
  have hmodule := Except.ok.inj hmodule
  -- The plan is for the canonical id of what the request names; the chain holds that, and
  -- of what is not registered nothing else.
  by_cases hid : query.moduleId = id
  · rw [hid, hcanonical, Option.getD_some] at hmodule
    rw [hmodule]
    exact ⟨fun _ => .inl hid, fun _ => hself⟩
  · rw [hasked.resolve_left hid] at hmodule
    have hrest : plan.moduleId = canonical ↔ ¬ registry.LedOn canonical := by
      rw [← hmodule, Option.getD_eq_iff, ← hgrown.atRest_iff, or_comm]
      exact or_congr_left (and_iff_left rfl)
    constructor
    · intro hmem
      rcases describe?_of_mem_chain hgrown hmetadata hplan canonical hmem with hsame | hthere
      · exact .inr (hrest.mp hsame.symm)
      · exact .inr fun hled => by rw [hled.1] at hthere; cases hthere
    · intro hor
      have hsame := hrest.mpr (hor.resolve_left hid)
      rw [← hsame]
      exact hself

end Registry

variable {sets : List RuleSet} {set : RuleSet} {spec : RuleSpec}

/-- Each rule of a set that is accepted is kept under every module that it selects. -/
theorem exists_registered {engine : Engine} {rules : List Rule} (hset : set ∈ sets)
    (hrules : engine.normalized set = .ok rules) (hspec : spec ∈ set.rules) :
    ∃ registered, spec.normalize engine.canonicalId set.contextId = .ok registered.rule
      ∧ (engine.accepted sets)[registered.ordinal]? = some registered.rule
      ∧ ∀ id ∈ registered.rule.criteria.modules,
        registered ∈ (engine.afterSets sets).store.rulesFor id := by
  obtain ⟨rule, hrule⟩ := (Outcome.of_mapM_eq_ok hrules).1 spec hspec
  have haccepted : rule ∈ engine.accepted sets := by
    refine List.mem_flatMap.mpr ⟨set, hset, ?_⟩
    rw [hrules]
    exact Outcome.mem_of_mapM_eq_ok hrules hspec hrule
  obtain ⟨ordinal, hordinal⟩ := List.mem_iff_getElem?.mp haccepted
  exact ⟨⟨rule, ordinal⟩, hrule, hordinal, fun id hselects =>
    (holds_afterSets engine sets).mem_rulesFor_iff.mpr ⟨hordinal, hselects⟩⟩

end Engine

/-- In a registry, however it was made, a canonical id is its own canonical id, or has none,
exactly if it is not led on; if it is registered, that is for good. A rule whose reference
denotes an id is kept under the canonical id of it. Every request for the one or the other
has a plan, and finds the rule there, if its criteria answer: when it names the id, and when
it names the canonical id unless this is led on. -/
theorem Registry.canonical_unless_ledOn (commands : List Registry.Command)
    (id canonical : String)
    (h : (Registry.afterCommands commands).canonical? id = some canonical) :
    let registry := Registry.afterCommands commands
    (registry.canonical? canonical = none ∨ registry.canonical? canonical = some canonical
      ↔ ¬ registry.LedOn canonical)
    ∧ ((registry.describe? canonical).isSome → ∀ more,
      (Registry.afterCommands (commands ++ more)).canonical? canonical = some canonical)
    ∧ ∀ (engine : Engine) (sets : List RuleSet) (set : RuleSet) (rules : List Rule)
      (spec : RuleSpec) (reference : String), engine.metadata = registry.metadata →
        set ∈ sets → engine.normalized set = .ok rules → spec ∈ set.rules →
        some reference ∈ spec.select.modules →
        Reference.resolve set.contextId reference = .ok id →
        ∃ registered ∈ (engine.afterSets sets).store.rulesFor canonical,
          spec.normalize engine.canonicalId set.contextId = .ok registered.rule
          ∧ ∀ query : Query, query.moduleId = id ∨ query.moduleId = canonical →
            ∃ plan, (engine.afterSets sets).plan query = .ok plan
              ∧ (registered.rule.criteria.answers
                  { context := engine.context, annotationId := plan.annotationId } = true →
                ((canonical, registered) ∈ plan.rules ↔
                  query.moduleId = id ∨ ¬ registry.LedOn canonical)) := by
  intro registry
  have hgrown : registry.Grown := grown_afterCommands commands
  have hnames : registry.NamesNamed := namesNamed_afterCommands commands
  obtain ⟨hid, hcanonical⟩ := hgrown.named_of_leads hnames (leads_of_canonical? h)
  refine ⟨hgrown.atRest_iff, fun hthere more => ?_, ?_⟩
  · have hlater := grown_afterCommands (commands ++ more)
    have hextends : registry.entries <+: (afterCommands (commands ++ more)).entries := by
      rw [afterCommands, List.foldl_append]
      exact entries_prefix_commands registry more
    obtain ⟨descriptor, hdescribe⟩ := Option.isSome_iff_exists.mp hthere
    exact hlater.canonical?_of_describe?
      (Option.isSome_of_eq_some (hgrown.describe?_of_prefix hlater hextends hdescribe))
  · intro engine sets set rules spec reference hmetadata hset hrules hspec hmem hreference
    have hmetadata' := (engine.metadata_afterSets sets).trans hmetadata
    obtain ⟨registered, hnormalize, hrule, hkept⟩ := Engine.exists_registered hset hrules hspec
    have hselects : canonical ∈ registered.rule.criteria.modules := by
      refine RuleSpec.mem_modules_of_normalize hnormalize hmem hreference ?_
      rw [Engine.canonicalId_eq hgrown hnames hmetadata, h]
      rfl
    refine ⟨registered, hkept canonical hselects, hnormalize, fun query hasked => ?_⟩
    have hnamed : query.moduleId ≠ "" := by
      rcases hasked with hasked | hasked <;> rw [hasked]
      · exact hid
      · exact hcanonical
    obtain ⟨plan, hplan⟩ := Engine.exists_plan hgrown hnames hmetadata' hnamed
    refine ⟨plan, hplan, fun hanswers => ?_⟩
    rw [← Engine.mem_chain_iff hgrown hnames hmetadata' hplan h hasked,
      Engine.mem_rules_iff (Engine.holds_afterSets engine sets) hplan,
      Engine.context_afterSets]
    exact and_iff_left ⟨hrule, hselects, hanswers⟩

/-- A registered id, a prefix that stands for its own, and an alias for what has the prefix. -/
def renames : List Registry.Command :=
  [.addType "ui/button" none, .addNamespace "old/" "ui/", .addAlias "btn" "old/button"]

def ruleFor (reference : String) : RuleSpec where
  select := { modules := [some reference] }
  apply := .fixed .empty

def engineOf (commands : List Registry.Command) : Engine where
  context := {}
  metadata := (Registry.afterCommands commands).metadata

theorem Registry.renamed_meets :
    let set : RuleSet := { contextId := some "old/rules", rules := [ruleFor "./button"] }
    (Registry.afterCommands renames).canonical? "old/button" = some "ui/button"
    ∧ ∃ registered ∈ ((engineOf renames).afterSets [set]).store.rulesFor "ui/button",
      ∀ query : Query, query.moduleId = "old/button" ∨ query.moduleId = "ui/button" →
        ∃ plan, ((engineOf renames).afterSets [set]).plan query = .ok plan
          ∧ (registered.rule.criteria.answers
              { context := {}, annotationId := plan.annotationId } = true →
            ("ui/button", registered) ∈ plan.rules) := by
  intro set
  have h : (Registry.afterCommands renames).canonical? "old/button" = some "ui/button" := by cbv
  obtain ⟨hrest, hstays, hmeets⟩ :=
    Registry.canonical_unless_ledOn renames "old/button" "ui/button" h
  have hfixed : (Registry.afterCommands renames).canonical? "ui/button" = some "ui/button" :=
    hstays (by cbv) []
  obtain ⟨registered, hkept, -, hfound⟩ := hmeets (engineOf renames) [set] set
    [{ criteria := ⟨["ui/button"], {}, none⟩, deps := [], apply := .fixed .empty,
       contextId := some "old/rules", priority := .zero }] (ruleFor "./button") "./button" rfl
    List.mem_cons_self (by cbv) List.mem_cons_self List.mem_cons_self (by cbv)
  refine ⟨h, registered, hkept, fun query hasked => ?_⟩
  obtain ⟨plan, hplan, hiff⟩ := hfound query hasked
  exact ⟨plan, hplan, fun hanswers => (hiff hanswers).mpr (.inr (hrest.mp (.inr hfixed)))⟩

def detour : List Registry.Command :=
  [.addAlias "a" "b", .addAlias "b" "c"]

/-- An alias for an alias stands for the alias and not for what that stands for. A rule for
the first is found by a request for it, and not by a request for its canonical id. -/
theorem Registry.detour_led_on :
    let registry := Registry.afterCommands detour
    let engine := (engineOf detour).afterSets [{ rules := [ruleFor "a"] }]
    let found (id : String) : Outcome (List String) :=
      (engine.plan { moduleId := id }).map fun plan => plan.rules.map Prod.fst
    registry.canonical? "a" = some "b"
      ∧ ¬ (registry.canonical? "b" = none ∨ registry.canonical? "b" = some "b")
      ∧ found "a" = .ok ["b"] ∧ found "b" = .ok [] := by
  have hrules : (engineOf detour).normalized { rules := [ruleFor "a"] }
      = .ok [⟨⟨["b"], {}, none⟩, [], .fixed .empty, none, .zero⟩] := rfl
  rw [Engine.afterSets_singleton hrules]
  exact ⟨by cbv, by cbv; decide, by cbv, by cbv⟩

end Strata
