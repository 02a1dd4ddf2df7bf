import Strata.Proofs.AtHand
import Strata.Proofs.Interleaving
import Strata.Proofs.Waiting

/-!
# Explanations without ordinals

Ordinals say in which order rules were registered, and registering other rules too changes
them. From the plan on nothing reads an ordinal: explaining a plan without ordinals gives
the explanation without ordinals, and this is an equation between scripts. So two engines
whose plans differ in ordinals alone answer alike, at once or with waiting, load the same
values and fail in the same way.
-/

namespace Strata

/-! ## Leaving the ordinals out -/

def Registered.unnumbered (registered : Registered) : Registered :=
  { registered with ordinal := 0 }

def Origin.unnumbered : Origin → Origin
  | .rule moduleId contextId priority specificity _ deps =>
    .rule moduleId contextId priority specificity 0 deps
  | .external moduleId index priority => .external moduleId index priority

def Contribution.unnumbered (contribution : Contribution) : Contribution :=
  { contribution with origin := contribution.origin.unnumbered }

/-- An explanation that does not say in which order the rules were registered. -/
def Explanation.unnumbered (explanation : Explanation) : Explanation :=
  { explanation with contributions := explanation.contributions.map Contribution.unnumbered }

theorem Explanation.result_unnumbered (explanation : Explanation) :
    explanation.unnumbered.result = explanation.result := by
  rw [result, result, fragments, fragments, unnumbered, List.map_map]
  rfl

def Plan.unnumbered (plan : Plan) : Plan :=
  { plan with rules := plan.rules.map fun found => (found.1, found.2.unnumbered) }

namespace Engine

def unnumberedStep : Step → Step :=
  Sum.map (fun found => (found.1, found.2.unnumbered)) id

variable {engine : Engine} {query : Query}

theorem steps_unnumbered (plan : Plan) (entries : List Entry) :
    engine.steps plan.unnumbered entries
      = List.map unnumberedStep <$> engine.steps plan entries := by
  rw [steps, steps]
  show (checkPriorities plan.moduleId 0 entries >>= _ : Outcome _) = _
  cases checkPriorities plan.moduleId 0 entries with
  | error fault => rfl
  | ok _ => exact congrArg Except.ok (Placement.interleave_map fun _ => rfl)

theorem contribution_unnumbered (moduleId : String) (step : Step) :
    engine.contribution moduleId (unnumberedStep step)
      = Contribution.unnumbered <$> engine.contribution moduleId step := by
  rcases step with ⟨id, registered⟩ | ⟨entry, index⟩
  · show engine.sources.resolve registered.rule.contextId registered.rule.deps >>= _ = _
    rw [contribution, map_bind]
    rfl
  · rfl

theorem contributions_unnumbered (moduleId : String) (steps : List Step) :
    engine.contributions moduleId (steps.map unnumberedStep)
      = List.map Contribution.unnumbered <$> engine.contributions moduleId steps := by
  induction steps with
  | nil => rfl
  | cons step rest ih =>
      rw [List.map_cons, contributions, contributions, ih, contribution_unnumbered]
      simp only [map_bind, bind_map_left, map_pure, List.map_cons]

def explanationOf (engine : Engine) (plan : Plan) : Script Explanation := do
  let entries ← engine.externalEntries plan
  let steps ← Script.ofOutcome (engine.steps plan entries)
  let contributions ← engine.contributions plan.moduleId steps
  pure { moduleId := plan.moduleId, annotationId := plan.annotationId, chain := plan.chain,
         contributions }

theorem explanation_eq (query : Query) :
    engine.explanation query = Script.ofOutcome (engine.plan query) >>= engine.explanationOf :=
  rfl

theorem contributions_store (store : RuleStore) (moduleId : String) (steps : List Step) :
    ({ engine with store } : Engine).contributions moduleId steps
      = engine.contributions moduleId steps := by
  induction steps with
  | nil => rfl
  | cons step rest ih =>
      rw [contributions, contributions, ih]
      rcases step with ⟨id, registered⟩ | ⟨entry, index⟩ <;> rfl

theorem explanationOf_store (store : RuleStore) (plan : Plan) :
    ({ engine with store } : Engine).explanationOf plan = engine.explanationOf plan := by
  simp only [explanationOf, contributions_store]
  rfl

/-- A plan without ordinals is explained without ordinals. -/
theorem explanationOf_unnumbered (plan : Plan) :
    engine.explanationOf plan.unnumbered
      = Explanation.unnumbered <$> engine.explanationOf plan := by
  have hentries : engine.externalEntries plan.unnumbered = engine.externalEntries plan := rfl
  have hlift : ∀ outcome : Outcome (List Step),
      Script.ofOutcome (List.map unnumberedStep <$> outcome)
        = List.map unnumberedStep <$> Script.ofOutcome outcome := by
    intro outcome
    cases outcome <;> rfl
  have hmodule : plan.unnumbered.moduleId = plan.moduleId := rfl
  rw [explanationOf, explanationOf, hentries, hmodule]
  simp only [steps_unnumbered, hlift, map_bind, bind_map_left, contributions_unnumbered,
    map_pure]
  rfl

theorem explanation_unnumbered (query : Query) :
    Explanation.unnumbered <$> engine.explanation query
      = Script.ofOutcome (Plan.unnumbered <$> engine.plan query) >>= engine.explanationOf := by
  rw [explanation_eq]
  cases engine.plan query with
  | error fault => rfl
  | ok plan => exact (explanationOf_unnumbered plan).symm

/-! ## Engines that answer alike -/

/-- Two engines answer a request alike: the same configuration or the same fault, and the
same explanation but for ordinals, at once and with waiting, from what is loaded and with
what is then loaded. -/
structure AnswersAlike (engine other : Engine) (query : Query) : Prop where
  select : ∀ cells, other.select cells query = engine.select cells query
  selectWaiting : ∀ cells, other.selectWaiting cells query = engine.selectWaiting cells query
  explain : ∀ cells, Explanation.unnumbered <$> other.explain cells query
    = Explanation.unnumbered <$> engine.explain cells query
  explainWaiting : ∀ cells,
    Prod.map (Explanation.unnumbered <$> ·) id (other.explainWaiting cells query)
      = Prod.map (Explanation.unnumbered <$> ·) id (engine.explainWaiting cells query)

theorem selection_eq (query : Query) :
    engine.selection query = Explanation.unnumbered <$> engine.explanation query >>=
      fun explanation => Script.ofOutcome explanation.result := by
  simp only [bind_map_left, Explanation.result_unnumbered]
  rfl

theorem AnswersAlike.of_explanation {other : Engine}
    (h : Explanation.unnumbered <$> other.explanation query
      = Explanation.unnumbered <$> engine.explanation query) :
    AnswersAlike engine other query := by
  have hselection : other.selection query = engine.selection query := by
    rw [selection_eq, selection_eq, h]
  refine ⟨fun cells => ?_, fun cells => ?_, fun cells => ?_, fun cells => ?_⟩
  · rw [← answer_selection, ← answer_selection, hselection]
  · rw [Engine.selectWaiting, Engine.selectWaiting, hselection]
  · rw [← answer_explanation, ← answer_explanation, ← Script.answer_map, ← Script.answer_map, h]
  · rw [Engine.explainWaiting, Engine.explainWaiting, ← Script.run_map, ← Script.run_map, h]

/-- Of the store, the plan alone makes a difference, but for ordinals. -/
theorem AnswersAlike.of_plan {store other : RuleStore}
    (h : Plan.unnumbered <$> ({ engine with store := other } : Engine).plan query
      = Plan.unnumbered <$> ({ engine with store } : Engine).plan query) :
    AnswersAlike { engine with store } { engine with store := other } query := by
  refine .of_explanation ?_
  rw [explanation_unnumbered, explanation_unnumbered, h]
  refine bind_congr fun plan => ?_
  rw [explanationOf_store other, explanationOf_store store]

end Engine

end Strata
