import Strata.Proofs.Canonical
import Strata.Proofs.References

/-!
# What rules are called with

A rule lists the ids of the values that it depends on. They were made from its references
when it was registered: each was resolved within the context of its set and then made
canonical. When the rule contributes, the ids in the list are resolved once more, within
the same context, and what comes out is looked up. The values that the rule is called with
are those of these last ids, one for one.

The second pass changes nothing about an id that is no relative reference. The first pass
leaves none, if the context is none itself and nothing that a name stands for begins with
dots: then the rule is called with the values of the ids that it lists. In a context that
is a relative reference the list may hold one too, and the second pass may lead it
elsewhere.
-/

namespace Strata

/-! ## The second pass -/

/-- Ids come from references, one for one, within a context. -/
def Reference.ResolveTo (contextId : Option String) (references ids : List String) : Prop :=
  List.Forall₂ (fun reference id => resolve contextId reference = .ok id) references ids

/-- Values are had for ids, one for one, from what is at hand. -/
def Sources.Provides (sources : Sources) (cells : Cells) (ids : List String)
    (values : List Json) : Prop :=
  List.Forall₂ (fun id value => sources.lookupReady cells id = .ok value) ids values

theorem Sources.of_resolveReady {sources : Sources} {cells : Cells} {contextId : Option String}
    {references : List String} {values : List Json}
    (h : sources.resolveReady cells contextId references = .ok values) :
    ∃ ids, Reference.ResolveTo contextId references ids ∧ sources.Provides cells ids values := by
  have hpairs := Outcome.forall₂_of_mapM_eq_ok h
  clear h
  induction hpairs with
  | nil => exact ⟨[], .nil, .nil⟩
  | cons hstep _ ih =>
      obtain ⟨id, hid, hvalue⟩ := Outcome.bind_eq_ok.mp hstep
      obtain ⟨others, hothers, hvalues⟩ := ih
      exact ⟨id :: others, .cons hid hothers, .cons hvalue hvalues⟩

theorem Reference.ResolveTo.eq_of_absolute {contextId : Option String}
    {references ids : List String} (h : ResolveTo contextId references ids)
    (habsolute : ∀ reference ∈ references, isRelative reference = false) : ids = references := by
  induction h with
  | nil => rfl
  | cons hid _ ih =>
      obtain ⟨hfirst, hrest⟩ := List.forall_mem_cons.mp habsolute
      rw [eq_of_resolve hfirst hid, ih hrest]

/-! ## The first pass -/

namespace Registry

variable {registry : Registry}

/-- Nothing that a name stands for is a relative reference, or becomes one before the rest
of an id. -/
structure Straight (registry : Registry) : Prop where
  aliases : ∀ entry ∈ registry.aliases, Reference.isRelative entry.2 = false
  namespaces : ∀ entry ∈ registry.namespaces,
    Reference.isRelative entry.2 = false ∧ ¬ Reference.IsDots entry.2

theorem Straight.isRelative_of_leads (h : registry.Straight) (hnames : registry.NamesNamed)
    {id canonical : String} (hid : Reference.isRelative id = false)
    (hleads : registry.Leads id canonical) : Reference.isRelative canonical = false := by
  cases hleads with
  | registered hindexed => exact hid
  | byAlias hnew halias => exact h.aliases _ (Fields.mem_of_get? halias)
  | byPrefix hnew hplain hprefix =>
      have hmem := (of_namespaceOf? hprefix).1
      obtain ⟨htarget, hdots⟩ := h.namespaces _ hmem
      exact Reference.isRelative_append htarget (hnames.namespaces _ hmem).2 hdots

end Registry

namespace Engine

variable {engine : Engine} {registry : Registry}

/-- The ids that a rule lists are no relative references, unless its context is one or a
name leads to one. -/
theorem isRelative_of_mem_deps (hgrown : registry.Grown) (hnames : registry.NamesNamed)
    (hmetadata : engine.metadata = registry.metadata) (hstraight : registry.Straight)
    {sets : List RuleSet} {rule : Rule} (h : rule ∈ engine.accepted sets)
    (hcontext : ∀ context, rule.contextId = some context → Reference.isRelative context = false) :
    ∀ dep ∈ rule.deps, Reference.isRelative dep = false := by
  intro dep hdep
  obtain ⟨set, -, spec, -, hnormalize⟩ := exists_spec_of_mem_accepted h
  obtain ⟨hsame, hdeps⟩ := RuleSpec.deps_of_normalize hnormalize
  obtain ⟨reference, -, id, hid, hcanonical⟩ := hdeps dep hdep
  rw [hsame] at hcontext
  have habsolute := Reference.isRelative_of_resolve hcontext hid
  rw [canonicalId_eq hgrown hnames hmetadata] at hcanonical
  rw [← Except.ok.inj hcanonical]
  cases hfound : registry.canonical? id with
  | none => exact habsolute
  | some canonical =>
      exact hstraight.isRelative_of_leads hnames habsolute (Registry.leads_of_canonical? hfound)

/-! ## Contributions of rules -/

/-- A contribution of a rule is that of a rule of the plan, called with values that were
had for its references. -/
theorem Accounts.of_mem_rule {query : Query} {explanation : Explanation} {later : Cells}
    {plan : Plan} {entries : List Entry} {steps : List Step}
    (h : engine.Accounts query explanation later plan entries steps)
    {contribution : Contribution} (hmem : contribution ∈ explanation.contributions)
    (hrule : contribution.origin.isExternal = false) :
    ∃ found ∈ plan.rules, ∃ values,
      engine.sources.resolveReady later found.2.rule.contextId found.2.rule.deps = .ok values
        ∧ contribution = ruleContribution found.1 found.2 values := by
  obtain ⟨step, hstep, hready⟩ := h.step_of_mem hmem
  cases step with
  | inl found =>
      obtain ⟨values, hvalues, hpure⟩ := Outcome.bind_eq_ok.mp hready
      exact ⟨found, mem_rules_of_steps h.placed hstep, values, hvalues,
        (Except.ok.inj hpure).symm⟩
  | inr indexed =>
      cases hready
      cases hrule

end Engine

/-- Over a registry, however it was made, and whatever sets have been registered, a rule
that contributes to an explanation is called with values that are had, one for one, for what
the ids that it lists resolve to within its context. These are the ids in the list unless
one of them is a relative reference. And none is if the context is none and no name leads
to one. -/
theorem Engine.rules_called_with_values (commands : List Registry.Command) (engine : Engine)
    (sets : List RuleSet) (cells later : Cells) (query : Query) (explanation : Explanation)
    (hmetadata : engine.metadata = (Registry.afterCommands commands).metadata)
    (h : (engine.afterSets sets).ExplainsWith cells query explanation later) :
    ∀ contribution ∈ explanation.contributions,
      ∀ moduleId contextId priority specificity ordinal deps,
        contribution.origin = .rule moduleId contextId priority specificity ordinal deps →
        ∃ rule ids values, (engine.accepted sets)[ordinal]? = some rule
          ∧ rule.contextId = contextId ∧ rule.deps = deps
          ∧ contribution.fragment = rule.apply.fragment values
          ∧ Reference.ResolveTo contextId deps ids
          ∧ engine.sources.Provides later ids values
          ∧ ((∀ dep ∈ deps, Reference.isRelative dep = false) → ids = deps)
          ∧ ((Registry.afterCommands commands).Straight →
            (∀ context, contextId = some context → Reference.isRelative context = false) →
              ids = deps) := by
  intro contribution hmem moduleId contextId priority specificity ordinal deps horigin
  obtain ⟨plan, entries, steps, haccount⟩ := h.exists_account
  obtain ⟨⟨id, registered⟩, hfound, values, hvalues, rfl⟩ :=
    haccount.of_mem_rule hmem (by rw [horigin]; rfl)
  cases horigin
  obtain ⟨-, hrule, -⟩ := (mem_rules_iff (holds_afterSets engine sets) haccount.planned).mp hfound
  obtain ⟨ids, hids, hprovided⟩ := Sources.of_resolveReady hvalues
  have hsources : (engine.afterSets sets).sources = engine.sources := by rw [afterSets_eq]
  rw [hsources] at hprovided
  refine ⟨registered.rule, ids, values, hrule, rfl, rfl, rfl, hids, hprovided,
    hids.eq_of_absolute, fun hstraight hcontext => hids.eq_of_absolute ?_⟩
  exact isRelative_of_mem_deps (Registry.grown_afterCommands commands)
    (Registry.namesNamed_afterCommands commands) hmetadata hstraight
    (List.mem_of_getElem? hrule) hcontext

/-! ### Palettes -/

namespace Engine

def palettes : List Registry.Command :=
  [.addAlias "colours" "app/palette"]

/-- Values for one reference, as it is first resolved and as it is resolved again. -/
def paletteEngine : Engine where
  context := {}
  metadata := (Registry.afterCommands palettes).metadata
  sources := [("./app/app/palette", .ready (.text "blue")), ("./app/palette", .ready (.text "red")),
    ("app/palette", .ready (.text "green"))]

/-- A rule that contributes what it is called with. -/
def listing : Apply :=
  .computed fun values => some (.object [("values", .array values)])

def paletteSet (contextId : String) (deps : List String) : RuleSet where
  contextId := some contextId
  rules := [{ select := { modules := [some "page"] }, deps, apply := listing }]

def paletteRule (contextId : String) (deps : List String) : Rule :=
  ⟨⟨["page"], {}, none⟩, deps, listing, some contextId, .zero⟩

def paletteExplanation (contextId : String) (deps : List String) (values : List Json) :
    Explanation where
  moduleId := "page"
  annotationId := none
  chain := ["page"]
  contributions := [⟨.rule "page" (some contextId) .zero 0 0 deps,
    .object [("values", .array values)]⟩]

theorem paletteEngine_explain {contextId : String} {deps ids : List String}
    {values : List Json}
    (hrules : paletteEngine.normalized (paletteSet contextId deps)
      = .ok [paletteRule contextId ids])
    (hvalues : paletteEngine.sources.resolveReady [] (some contextId) ids = .ok values) :
    (paletteEngine.afterSets [paletteSet contextId deps]).explain [] { moduleId := "page" }
      = .ok (paletteExplanation contextId ids values) := by
  let rule := paletteRule contextId ids
  let engine : Engine := { paletteEngine with store := ({} : RuleStore).insert rule }
  let plan : Plan := ⟨"page", none, ["page"], [("page", ⟨rule, 0⟩)]⟩
  have hplan : engine.plan { moduleId := "page" } = .ok plan := by cbv
  have hsteps : engine.steps plan [] = .ok [.inl ("page", ⟨rule, 0⟩)] := by cbv
  have hcontributions : [.inl ("page", ⟨rule, 0⟩)].mapM (engine.contributionReady [] "page")
      = .ok [ruleContribution "page" ⟨rule, 0⟩ values] :=
    Outcome.mapM_cons_eq_ok.mpr
      ⟨_, [], Outcome.bind_eq_ok.mpr ⟨values, hvalues, rfl⟩, rfl, rfl⟩
  rw [afterSets_singleton hrules]
  exact Outcome.bind_eq_ok.mpr ⟨plan, hplan, Outcome.bind_eq_ok.mpr ⟨[], rfl,
    Outcome.bind_eq_ok.mpr ⟨_, hsteps, Outcome.bind_eq_ok.mpr ⟨_, hcontributions, rfl⟩⟩⟩⟩

theorem straight_palettes : (Registry.afterCommands palettes).Straight := by
  refine ⟨fun entry hentry => ?_, fun entry hentry => (List.not_mem_nil hentry).elim⟩
  cases List.mem_singleton.mp hentry
  decide

theorem paletteRule_called :
    let engine := paletteEngine.afterSets [paletteSet "app/rules" ["./palette", "colours"]]
    let explanation := paletteExplanation "app/rules" ["app/palette", "app/palette"]
      [.text "green", .text "green"]
    engine.ExplainsWith [] { moduleId := "page" } explanation []
      ∧ ∀ contribution ∈ explanation.contributions, ∃ rule : Rule, ∃ values,
        contribution.fragment = rule.apply.fragment values
          ∧ paletteEngine.sources.Provides [] ["app/palette", "app/palette"] values := by
  intro engine explanation
  have hrules : paletteEngine.normalized (paletteSet "app/rules" ["./palette", "colours"])
      = .ok [paletteRule "app/rules" ["app/palette", "app/palette"]] := rfl
  have hvalues : paletteEngine.sources.resolveReady [] (some "app/rules")
      ["app/palette", "app/palette"] = .ok [.text "green", .text "green"] := rfl
  have h : engine.ExplainsWith [] { moduleId := "page" } explanation [] :=
    .inl ⟨paletteEngine_explain hrules hvalues, rfl⟩
  refine ⟨h, fun contribution hmem => ?_⟩
  have horigin := List.mem_singleton.mp hmem
  obtain ⟨rule, found, values, -, -, -, hfragment, -, hprovided, -, hsame⟩ :=
    rules_called_with_values palettes paletteEngine _ [] [] _ explanation rfl h contribution hmem
      "page" (some "app/rules") .zero 0 0 ["app/palette", "app/palette"] (by rw [horigin])
  rw [hsame straight_palettes (by rintro _ ⟨⟩; decide)] at hprovided
  exact ⟨rule, values, hfragment, hprovided⟩

/-- In a context that is a relative reference, a rule lists a value that is there and is
called with another. -/
theorem paletteRule_misled :
    let sets := [paletteSet "./app/rules" ["./palette"]]
    (paletteEngine.afterSets sets).explain [] { moduleId := "page" }
        = .ok (paletteExplanation "./app/rules" ["./app/palette"] [.text "blue"])
      ∧ ¬ ∃ rule values, (paletteEngine.accepted sets)[0]? = some rule
        ∧ paletteEngine.sources.Provides [] ["./app/palette"] values
        ∧ rule.apply.fragment values = .object [("values", .array [.text "blue"])] := by
  have hrules : paletteEngine.normalized (paletteSet "./app/rules" ["./palette"])
      = .ok [paletteRule "./app/rules" ["./app/palette"]] := rfl
  have hvalues : paletteEngine.sources.resolveReady [] (some "./app/rules") ["./app/palette"]
      = .ok [.text "blue"] := rfl
  have hred : paletteEngine.sources.lookupReady [] "./app/palette" = .ok (.text "red") := rfl
  refine ⟨paletteEngine_explain hrules hvalues, ?_⟩
  rintro ⟨rule, values, hrule, hprovided, hfragment⟩
  rw [accepted, List.flatMap_singleton, hrules] at hrule
  cases hrule
  cases hprovided with
  | cons hvalue hnone =>
      cases hnone
      cases hred.symm.trans hvalue
      simp [paletteRule, listing, Apply.fragment] at hfragment

end Engine

end Strata
