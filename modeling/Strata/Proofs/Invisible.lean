import Mathlib
import Strata.Proofs.Demand
import Strata.Proofs.Inheritance
import Strata.Proofs.Plans
import Strata.Proofs.Registration
import Strata.Proofs.Unnumbered

/-!
# Rules that do not match

A rule that selects no module of a request's chain, or whose criteria do not answer the
request, might as well not be registered. What the store holds for a module is the stable
sort of the registered rules that select it, and the plan leaves out those that do not
answer; since leaving out commutes with a stable sort, the plan lists the rules that are
seen, sorted, and which rules are not seen does not enter into it. Only the ordinals tell:
they count every rule.

Which rules a request sees does not depend on what is registered. So it can be said of a
set before it is registered which of its rules may be left out, and a run of registrations
without them is a run whose rules are those of the first without some unseen ones.
-/

namespace Strata

/-! ## Leaving out -/

/-- The second list is the first with some of its items left out that satisfy `out`. -/
inductive Thinned {α : Type} (out : α → Prop) : List α → List α → Prop
  | nil : Thinned out [] []
  | keep (item : α) {items fewer : List α} (h : Thinned out items fewer) :
      Thinned out (item :: items) (item :: fewer)
  | drop {item : α} {items fewer : List α} (hout : out item) (h : Thinned out items fewer) :
      Thinned out (item :: items) fewer

section Thinned

variable {α β : Type} {out : α → Prop} {items fewer : List α}

theorem Thinned.append {more others : List α} (h : Thinned out items fewer)
    (hmore : Thinned out more others) : Thinned out (items ++ more) (fewer ++ others) := by
  induction h with
  | nil => exact hmore
  | keep item _ ih => exact .keep item ih
  | drop hout _ ih => exact .drop hout ih

theorem Thinned.filter_eq {keep : α → Bool} (h : Thinned out items fewer)
    (hout : ∀ item, out item → keep item = false) : items.filter keep = fewer.filter keep := by
  induction h with
  | nil => rfl
  | keep item _ ih => rw [List.filter_cons, List.filter_cons, ih]
  | drop hitem _ ih => rw [List.filter_cons_of_neg (by simp [hout _ hitem]), ih]

theorem Thinned.mapM {step : α → Outcome β} {out : β → Prop} {results : List β}
    (h : Thinned (fun item => ∀ result, step item = .ok result → out result) items fewer)
    (hresults : items.mapM step = .ok results) :
    ∃ others, fewer.mapM step = .ok others ∧ Thinned out results others := by
  induction h generalizing results with
  | nil =>
      cases hresults
      exact ⟨[], rfl, .nil⟩
  | keep item _ ih =>
      obtain ⟨result, more, hstep, hmore, rfl⟩ := Outcome.mapM_cons_eq_ok.mp hresults
      obtain ⟨others, hothers, h⟩ := ih hmore
      exact ⟨result :: others, Outcome.mapM_cons_eq_ok.mpr ⟨_, _, hstep, hothers, rfl⟩,
        .keep result h⟩
  | drop hout _ ih =>
      obtain ⟨result, more, hstep, hmore, rfl⟩ := Outcome.mapM_cons_eq_ok.mp hresults
      obtain ⟨others, hothers, h⟩ := ih hmore
      exact ⟨others, hothers, .drop (hout result hstep) h⟩

end Thinned

namespace Engine

variable {engine : Engine} {query : Query}

/-! ## The rules of a plan -/

/-- No rule like this is seen by the request: it selects no module of the chain, or its
criteria do not answer. -/
def Unseen (engine : Engine) (query : Query) (rule : Rule) : Prop :=
  ∀ plan, engine.plan query = .ok plan →
    (∀ id ∈ plan.chain, id ∉ rule.criteria.modules)
      ∨ rule.criteria.answers { context := engine.context, annotationId := plan.annotationId }
        = false

/-- What is planned depends on the store in its rules alone. -/
theorem plan_store (store : RuleStore) (query : Query) :
    ({ engine with store } : Engine).plan query
      = (fun plan => { plan with
          rules := plan.chain.flatMap (({ engine with store } : Engine).matching
            { context := engine.context, annotationId := plan.annotationId }) })
        <$> engine.plan query := by
  rw [plan, plan]
  simp only [map_bind, map_pure]
  rfl

def weighsAtMost (x y : Rule) : Bool :=
  Registered.weighsAtMost ⟨x, 0⟩ ⟨y, 0⟩

theorem weighsAtMost_trans (x y z : Rule) (hxy : weighsAtMost x y) (hyz : weighsAtMost y z) :
    weighsAtMost x z :=
  Registered.weighsAtMost_trans ⟨x, 0⟩ ⟨y, 0⟩ ⟨z, 0⟩ hxy hyz

theorem weighsAtMost_total (x y : Rule) : weighsAtMost x y || weighsAtMost y x :=
  Registered.weighsAtMost_total ⟨x, 0⟩ ⟨y, 0⟩

/-- Whether a rule is seen by a request at a module. -/
def seenAt (request : Request) (id : String) (rule : Rule) : Bool :=
  rule.criteria.answers request && rule.criteria.modules.contains id

theorem map_rule_numbered (rules : List Rule) : (numbered rules).map Registered.rule = rules := by
  refine List.ext_getElem? fun index => ?_
  rw [List.getElem?_map, numbered, List.getElem?_mapIdx, Option.map_map]
  exact congrFun Option.map_id rules[index]?

/-- The rules of a module are, but for ordinals, the registered rules that select it, sorted. -/
theorem map_rule_rulesFor {store : RuleStore} {rules : List Rule} (h : store.Holds rules)
    (id : String) :
    (store.rulesFor id).map Registered.rule
      = (rules.filter fun rule => rule.criteria.modules.contains id).mergeSort weighsAtMost := by
  have hselected : ((numbered rules).filter (Registered.selects id)).map Registered.rule
      = rules.filter fun rule => rule.criteria.modules.contains id := by
    conv => rhs; rw [← map_rule_numbered rules, List.filter_map]
    rfl
  rw [h.rulesFor_eq_mergeSort, ← hselected]
  exact List.map_mergeSort fun _ _ _ _ => rfl

/-- The rules found at a module are, but for ordinals, the registered rules that are seen
there, sorted. -/
theorem matching_unnumbered {rules : List Rule} (h : engine.store.Holds rules)
    (request : Request) (id : String) :
    (engine.matching request id).map (fun found => (found.1, found.2.unnumbered))
      = ((rules.filter (seenAt request id)).mergeSort weighsAtMost).map
        fun rule => (id, ⟨rule, 0⟩) := by
  have hanswering : ((engine.store.rulesFor id).filter fun registered =>
        registered.rule.criteria.answers request).map Registered.rule
      = (rules.filter (seenAt request id)).mergeSort weighsAtMost := calc
    _ = ((engine.store.rulesFor id).map Registered.rule).filter fun rule =>
          rule.criteria.answers request := by
        rw [List.filter_map]
        rfl
    _ = ((rules.filter fun rule => rule.criteria.modules.contains id).mergeSort
          weighsAtMost).filter fun rule => rule.criteria.answers request := by
        rw [map_rule_rulesFor h]
    _ = ((rules.filter fun rule => rule.criteria.modules.contains id).filter fun rule =>
          rule.criteria.answers request).mergeSort weighsAtMost :=
        filter_mergeSort weighsAtMost_trans weighsAtMost_total _ _
    _ = (rules.filter (seenAt request id)).mergeSort weighsAtMost := by
        rw [List.filter_filter]
        rfl
  rw [matching, ← hanswering, List.map_map, List.map_map]
  rfl

/-- Two stores whose rules differ in unseen ones alone have the same plans but for
ordinals. -/
theorem plan_unnumbered {rules fewer : List Rule} {store thin : RuleStore}
    (h : store.Holds rules) (hthin : thin.Holds fewer)
    (hfewer : Thinned (engine.Unseen query) rules fewer) :
    Plan.unnumbered <$> ({ engine with store := thin } : Engine).plan query
      = Plan.unnumbered <$> ({ engine with store } : Engine).plan query := by
  rw [plan_store thin query, plan_store store query]
  cases hplan : engine.plan query with
  | error fault => rfl
  | ok plan =>
      let request : Request := { context := engine.context, annotationId := plan.annotationId }
      have hseen : ∀ id ∈ plan.chain,
          rules.filter (seenAt request id) = fewer.filter (seenAt request id) := by
        intro id hid
        refine hfewer.filter_eq fun rule hunseen => ?_
        rw [seenAt, Bool.and_eq_false_iff]
        rcases hunseen plan hplan with hselects | hanswers
        · exact .inr (by simpa using hselects id hid)
        · exact .inl hanswers
      refine congrArg Except.ok ?_
      rw [Plan.unnumbered, Plan.unnumbered, Plan.mk.injEq]
      refine ⟨rfl, rfl, rfl, ?_⟩
      rw [List.map_flatMap, List.map_flatMap]
      refine List.flatMap_congr fun id hid => ?_
      rw [matching_unnumbered hthin, matching_unnumbered h, hseen id hid]

/-! ## Runs of registrations -/

theorem add_eq (engine : Engine) (set : RuleSet) :
    engine.add set = (fun rules => { engine with
        store := rules.foldl RuleStore.insert engine.store }) <$> engine.normalized set := by
  rw [add]
  cases hset : engine.normalized set with
  | ok rules => rw [register_of_ok hset]; rfl
  | error fault => rw [register_of_error hset]; rfl

/-- Sets are registered one after the other exactly if all of them are valid. -/
theorem foldlM_add_eq_ok {sets : List RuleSet} {store : RuleStore} {full : Engine} :
    sets.foldlM Engine.add { engine with store } = .ok full ↔
      ∃ rules, sets.mapM engine.normalized = .ok rules
        ∧ full = { engine with store := rules.flatten.foldl RuleStore.insert store } := by
  induction sets generalizing store with
  | nil =>
      constructor
      · intro h
        cases h
        exact ⟨[], rfl, rfl⟩
      · rintro ⟨_, h, rfl⟩
        cases h
        rfl
  | cons set rest ih =>
      -- Validity does not depend on the store.
      have hsame : ({ engine with store } : Engine).normalized set = engine.normalized set := rfl
      rw [List.foldlM_cons, add_eq, hsame]
      constructor
      · intro h
        obtain ⟨next, hnext, h⟩ := Outcome.bind_eq_ok.mp h
        obtain ⟨first, hfirst, rfl⟩ := Outcome.map_eq_ok.mp hnext
        obtain ⟨others, hothers, rfl⟩ := (@ih (first.foldl RuleStore.insert store)).mp h
        exact ⟨first :: others, Outcome.mapM_cons_eq_ok.mpr ⟨_, _, hfirst, hothers, rfl⟩, by
          rw [List.flatten_cons, List.foldl_append]⟩
      · rintro ⟨_, hall, rfl⟩
        obtain ⟨first, others, hfirst, hothers, rfl⟩ := Outcome.mapM_cons_eq_ok.mp hall
        rw [hfirst]
        refine (@ih (first.foldl RuleStore.insert store)).mpr ⟨others, hothers, ?_⟩
        rw [List.flatten_cons, List.foldl_append]

theorem accepted_eq_flatten {sets : List RuleSet} {rules : List (List Rule)}
    (h : sets.mapM engine.normalized = .ok rules) : engine.accepted sets = rules.flatten := by
  induction sets generalizing rules with
  | nil =>
      cases h
      rfl
  | cons set rest ih =>
      obtain ⟨first, more, hfirst, hmore, rfl⟩ := Outcome.mapM_cons_eq_ok.mp h
      rw [accepted, List.flatMap_cons, hfirst, List.flatten_cons, ← ih hmore]
      rfl

theorem holds_flatten {sets : List RuleSet} {rules : List (List Rule)}
    (h : sets.mapM engine.normalized = .ok rules) :
    (rules.flatten.foldl RuleStore.insert {} : RuleStore).Holds rules.flatten := by
  rw [← accepted_eq_flatten h]
  exact RuleStore.holds_empty.foldl_insert fun rule hrule =>
    (valid_of_mem_accepted hrule).nodup_modules

/-! ## Sets without some of their rules -/

/-- The second set is the first without some rules that the request does not see. -/
structure Thins (engine : Engine) (query : Query) (set fewer : RuleSet) : Prop where
  sameContext : fewer.contextId = set.contextId
  fewerRules : Thinned
    (fun spec => ∀ rule, spec.normalize engine.canonicalId set.contextId = .ok rule →
      engine.Unseen query rule) set.rules fewer.rules

theorem Thins.normalized {set fewer : RuleSet} {rules : List Rule}
    (h : engine.Thins query set fewer) (hrules : engine.normalized set = .ok rules) :
    ∃ others, engine.normalized fewer = .ok others
      ∧ Thinned (engine.Unseen query) rules others := by
  rw [Engine.normalized, h.sameContext]
  exact h.fewerRules.mapM hrules

theorem exists_thinned {sets fewer : List RuleSet} {rules : List (List Rule)}
    (h : List.Forall₂ (engine.Thins query) sets fewer)
    (hrules : sets.mapM engine.normalized = .ok rules) :
    ∃ others, fewer.mapM engine.normalized = .ok others
      ∧ Thinned (engine.Unseen query) rules.flatten others.flatten := by
  induction h generalizing rules with
  | nil =>
      cases hrules
      exact ⟨[], rfl, .nil⟩
  | cons hset _ ih =>
      obtain ⟨first, more, hfirst, hmore, rfl⟩ := Outcome.mapM_cons_eq_ok.mp hrules
      obtain ⟨kept, hkept, hthinned⟩ := hset.normalized hfirst
      obtain ⟨others, hothers, h⟩ := ih hmore
      exact ⟨kept :: others, Outcome.mapM_cons_eq_ok.mpr ⟨_, _, hkept, hothers, rfl⟩,
        hthinned.append h⟩

/-! ## What is not seen -/

theorem unseen_of_annotated (hplain : query.annotationId = none ∨ query.annotationId = some "")
    {rule : Rule} (hrule : rule.criteria.annotationIds.isSome) : engine.Unseen query rule := by
  intro plan hplan
  have hannotation := (of_plan_eq_ok hplan).2.1
  have hnone : plan.annotationId = none := by
    rcases hplain with hplain | hplain <;> rw [hplain] at hannotation
    · exact (Except.ok.inj hannotation).symm
    · exact (Except.ok.inj hannotation).symm
  obtain ⟨accepted, haccepted⟩ := Option.isSome_iff_exists.mp hrule
  refine .inr ?_
  rw [Criteria.answers, haccepted, hnone]
  rfl

theorem unseen_of_plain (hasked : ∃ asked, query.annotationId = some asked ∧ asked ≠ "")
    {rule : Rule} (hrule : rule.criteria.annotationIds = none) : engine.Unseen query rule := by
  intro plan hplan
  obtain ⟨annotationId, hannotation⟩ := Option.isSome_iff_exists.mp
    (isSome_of_canonicalAnnotation_eq_ok hasked (of_plan_eq_ok hplan).2.1)
  refine .inr ?_
  rw [Criteria.answers, hrule, hannotation]
  rfl

/-- One of the rules that the request sees depends on the value `id`. -/
def Needs (engine : Engine) (query : Query) (rules : List Rule) (id : String) : Prop :=
  ∃ rule ∈ rules, ¬ engine.Unseen query rule ∧ Sources.Asks rule.contextId rule.deps id

theorem needs_of_dependsOn {full : Engine} {store : RuleStore} {rules : List Rule}
    (hfull : full = { engine with store }) (h : store.Holds rules) {id : String}
    (hdepends : full.DependsOn query id) : engine.Needs query rules id := by
  obtain ⟨plan, hplan, found, hfound, hasks⟩ := hdepends
  rw [hfull] at hplan
  obtain ⟨hmember, hrule, hselects, hanswers⟩ :=
    (@mem_rules_iff { engine with store } query plan rules h found hplan).mp hfound
  rw [plan_store store query] at hplan
  obtain ⟨whole, hwhole, rfl⟩ := Outcome.map_eq_ok.mp hplan
  refine ⟨found.2.rule, List.mem_of_getElem? hrule, fun hunseen => ?_, hasks⟩
  rcases hunseen whole hwhole with hnowhere | hrefuses
  · exact hnowhere found.1 hmember hselects
  · exact absurd hanswers (by simp only [hrefuses]; exact Bool.false_ne_true)

/-! ## Invisible rules -/

/-- Sets that can all be registered can be registered without rules that a request does not
see, and the request is then answered as before but for ordinals: rules that select nothing
of the chain, rules whose criteria do not answer, and so rules for annotations when a
module is asked for and all others when an annotation is. What no rule that is seen depends
on may be defined in any way or not at all, and is never loaded. -/
theorem unseen_rules_invisible (engine full : Engine) (sets fewer : List RuleSet)
    (query : Query)
    (hsets : sets.foldlM Engine.add { engine with store := {} } = .ok full)
    (hfewer : List.Forall₂ (engine.Thins query) sets fewer) :
    (∃ thin, fewer.foldlM Engine.add { engine with store := {} } = .ok thin
      ∧ AnswersAlike full thin query)
    ∧ (query.annotationId = none ∨ query.annotationId = some "" →
      ∀ rule : Rule, rule.criteria.annotationIds.isSome → engine.Unseen query rule)
    ∧ ((∃ asked, query.annotationId = some asked ∧ asked ≠ "") →
      ∀ rule : Rule, rule.criteria.annotationIds = none → engine.Unseen query rule)
    ∧ (∀ sources : Sources, (∀ id, engine.Needs query (engine.accepted sets) id →
        Fields.get? id sources = Fields.get? id engine.sources) →
      AnswersAlike full { full with sources } query)
    ∧ ∀ id, ¬ engine.Needs query (engine.accepted sets) id → ∀ cells,
      (full.explainWaiting cells query).2.cell id = cells.cell id
        ∧ (full.selectWaiting cells query).2.cell id = cells.cell id := by
  obtain ⟨rules, hrules, hfull⟩ := foldlM_add_eq_ok.mp hsets
  obtain ⟨others, hothers, hthinned⟩ := exists_thinned hfewer hrules
  have hsources : full.sources = engine.sources := by rw [hfull]
  have hneeds := fun id => @needs_of_dependsOn engine query full _ _ hfull (holds_flatten hrules) id
  rw [accepted_eq_flatten hrules]
  refine ⟨⟨_, foldlM_add_eq_ok.mpr ⟨others, hothers, rfl⟩, ?_⟩,
    fun hplain rule => unseen_of_annotated hplain, fun hasked rule => unseen_of_plain hasked,
    fun sources hagree => .of_explanation ?_, fun id hid cells => ?_⟩
  · rw [hfull]
    exact .of_plan (plan_unnumbered (holds_flatten hrules) (holds_flatten hothers) hthinned)
  · rw [explanation_congr fun id hdepends => ?_]
    rw [hsources]
    exact hagree id (hneeds id hdepends)
  · have huntouched : ∀ loader : Loader, ¬ (full.DependsOn query id
        ∧ Fields.get? id full.sources = some (.onDemand loader)) :=
      fun loader hdemand => hid (hneeds id hdemand.1)
    exact ⟨(loadsOnly_explanation full query).cell_run huntouched cells,
      (loadsOnly_selection full query).cell_run huntouched cells⟩

/-! ### Sets with broken rules -/

/-- A page below a template, a palette that is known, and configuration from outside. -/
def studio : Engine where
  context := { locale := some ⟨["en"]⟩ }
  metadata := Metadata.ofTables []
    [("page", { id := "page", kind := .typeModule, ancestor := some "template" }),
      ("template", { id := "template", kind := .typeModule })]
  sources := [("palette", .ready (.text "blue"))]
  provider := some (.fixed [("page", [⟨some .zero, .object [("width", .integer 3)]⟩])])

def pageSpec : RuleSpec where
  select := { modules := [some "page"] }
  deps := ["palette"]
  apply := .computed fun values => some (.object [("colour", values.headD .null)])

def templateSpec : RuleSpec where
  select := { modules := [some "sidebar", some "template"] }
  apply := .fixed (.object [("colour", .text "grey")])

/-- A rule that depends on a value that is not defined. -/
def brokenSpec (id : String) (locale annotationIds : Option Accepted) : RuleSpec where
  select := { modules := [some id], dimensions := { locale }, annotationIds }
  deps := ["./nowhere"]
  apply := .computed List.head?

/-- Broken rules for another module than the page, for another locale and for an
annotation, among others. -/
def studioSets : List RuleSet :=
  [{ contextId := some "theme/dark"
     rules := [brokenSpec "sidebar" none none, pageSpec,
      brokenSpec "page" (some ⟨["fr"]⟩) none] },
    { contextId := some "theme/light"
      rules := [brokenSpec "page" none (some ⟨["note"]⟩), templateSpec] }]

def mendedSets : List RuleSet :=
  [{ contextId := some "theme/dark", rules := [pageSpec] },
    { contextId := some "theme/light", rules := [templateSpec] }]

def pageQuery : Query := { moduleId := "page", inherit := true }

def brokenRule (id : String) (locale annotationIds : Option Accepted) (contextId : String) :
    Rule where
  criteria := ⟨[id], { locale }, annotationIds⟩
  deps := ["theme/nowhere"]
  apply := .computed List.head?
  contextId := some contextId
  priority := .zero

def pageRule : Rule :=
  ⟨⟨["page"], {}, none⟩, ["palette"], pageSpec.apply, some "theme/dark", .zero⟩

def templateRule : Rule :=
  ⟨⟨["sidebar", "template"], {}, none⟩, [], templateSpec.apply, some "theme/light", .zero⟩

def studioRules : List (List Rule) :=
  [[brokenRule "sidebar" none none "theme/dark", pageRule,
      brokenRule "page" (some ⟨["fr"]⟩) none "theme/dark"],
    [brokenRule "page" none (some ⟨["note"]⟩) "theme/light", templateRule]]

theorem normalized_studioSets : studioSets.mapM studio.normalized = .ok studioRules := rfl

theorem thins_mendedSets :
    List.Forall₂ (studio.Thins pageQuery) studioSets mendedSets := by
  have hplan : studio.plan pageQuery = .ok ⟨"page", none, ["template", "page"], []⟩ := by cbv
  have hunseen : ∀ rule : Rule, (∀ id ∈ ["template", "page"], id ∉ rule.criteria.modules)
      ∨ rule.criteria.answers { context := studio.context } = false →
        studio.Unseen pageQuery rule := by
    intro rule h plan hfound
    cases hplan.symm.trans hfound
    exact h
  refine .cons ⟨rfl, .drop ?_ (.keep _ (.drop ?_ .nil))⟩
    (.cons ⟨rfl, .drop ?_ (.keep _ .nil)⟩ .nil)
  · intro rule hrule
    obtain rfl : brokenRule "sidebar" none none "theme/dark" = rule := Except.ok.inj hrule
    exact hunseen _ (.inl (by decide))
  · intro rule hrule
    obtain rfl : brokenRule "page" (some ⟨["fr"]⟩) none "theme/dark" = rule :=
      Except.ok.inj hrule
    exact hunseen _ (.inr rfl)
  · intro rule hrule
    obtain rfl : brokenRule "page" none (some ⟨["note"]⟩) "theme/light" = rule :=
      Except.ok.inj hrule
    exact hunseen _ (.inr rfl)

def studioFull : Engine :=
  { studio with store := studioRules.flatten.foldl RuleStore.insert {} }

theorem studioFull_explain :
    studioFull.explain [] pageQuery = .ok
      { moduleId := "page", annotationId := none, chain := ["template", "page"]
        contributions :=
          [⟨.external "page" 0 .zero, .object [("width", .integer 3)]⟩,
            ⟨.rule "template" (some "theme/light") .zero 0 4 [],
              .object [("colour", .text "grey")]⟩,
            ⟨.rule "page" (some "theme/dark") .zero 0 1 ["palette"],
              .object [("colour", .text "blue")]⟩] } := by
  let plan : Plan := ⟨"page", none, ["template", "page"],
    [("template", ⟨templateRule, 4⟩), ("page", ⟨pageRule, 1⟩)]⟩
  let entry : Entry := ⟨some .zero, .object [("width", .integer 3)]⟩
  have hplan : studioFull.plan pageQuery = .ok plan := by cbv
  have hsteps : studioFull.steps plan [entry] = .ok
      [.inr (entry, 0), .inl ("template", ⟨templateRule, 4⟩), .inl ("page", ⟨pageRule, 1⟩)] := by
    cbv
  calc studioFull.explain [] pageQuery
    _ = (do
          let steps ← studioFull.steps plan [entry]
          let contributions ← steps.mapM (studioFull.contributionReady [] "page")
          pure ⟨"page", none, ["template", "page"], contributions⟩) := by
        rw [explain, hplan]
        rfl
    _ = _ := by
        rw [hsteps]
        rfl

theorem mendedSets_answer :
    ∃ thin,
      studioSets.foldlM Engine.add { studio with store := {} } = .ok studioFull
      ∧ List.Forall₂ (studio.Thins pageQuery) studioSets mendedSets
      ∧ mendedSets.foldlM Engine.add { studio with store := {} } = .ok thin
      ∧ thin.select [] pageQuery
        = .ok (some (.object [("colour", .text "blue"), ("width", .integer 3)])) := by
  have hsets : studioSets.foldlM Engine.add { studio with store := {} } = .ok studioFull :=
    foldlM_add_eq_ok.mpr ⟨studioRules, normalized_studioSets, rfl⟩
  obtain ⟨⟨thin, hthin, halike⟩, -⟩ := unseen_rules_invisible studio studioFull studioSets
    mendedSets pageQuery hsets thins_mendedSets
  refine ⟨thin, hsets, thins_mendedSets, hthin, ?_⟩
  rw [halike.select, select, studioFull_explain]
  cbv

end Engine

end Strata
