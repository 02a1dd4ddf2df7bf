import Mathlib
import Strata.Proofs.Agreement
import Strata.Proofs.Cascade

/-!
# What an explanation is made of

An explanation is given at once or after some waiting. Once it is given, everything that it
needed is at hand: its contributions are those that the steps of its plan make at once from
what is loaded then. So one account serves both ways, of the plan, of the entries that were
supplied for it, of the steps, and of the contributions one for one.
-/

namespace Strata

/-- A step that succeeds on every item relates the items to its results one for one. -/
theorem Outcome.forall₂_of_mapM_eq_ok {α β : Type} {step : α → Outcome β} {items : List α}
    {results : List β} (h : items.mapM step = .ok results) :
    List.Forall₂ (fun item result => step item = .ok result) items results := by
  induction items generalizing results with
  | nil =>
      cases h
      exact .nil
  | cons item rest ih =>
      obtain ⟨result, others, hstep, hothers, rfl⟩ := mapM_cons_eq_ok.mp h
      exact .cons hstep (ih hothers)

/-- A script that runs to a value runs through each of its parts. -/
theorem Script.of_run_bind {α β : Type} {script : Script α} {next : α → Script β}
    {cells later : Cells} {result : β} (h : (script >>= next).run cells = (.ok result, later)) :
    ∃ value between, script.run cells = (.ok value, between)
      ∧ (next value).run between = (.ok result, later) := by
  rw [run_bind] at h
  rcases hscript : script.run cells with ⟨value | fault, between⟩ <;> rw [hscript] at h
  · cases h
  · exact ⟨_, between, rfl, h⟩

namespace Engine

variable {engine : Engine} {query : Query} {explanation : Explanation} {cells later : Cells}

/-- An explanation that the engine gives, at once or with all waiting done, and what is
loaded when it is given. -/
def ExplainsWith (engine : Engine) (cells : Cells) (query : Query) (explanation : Explanation)
    (later : Cells) : Prop :=
  engine.explain cells query = .ok explanation ∧ later = cells
    ∨ engine.explainWaiting cells query = (.ok explanation, later)

theorem Explains.exists_later (h : engine.Explains cells query explanation) :
    ∃ later, engine.ExplainsWith cells query explanation later := by
  rcases h with hnow | hwaiting
  · exact ⟨cells, .inl ⟨hnow, rfl⟩⟩
  · exact ⟨(engine.explainWaiting cells query).2, .inr (Prod.ext hwaiting rfl)⟩

/-- How an explanation came about: from the plan of the request, the entries supplied for
it, and the steps of both, each of which contributes from what is loaded in the end. -/
structure Accounts (engine : Engine) (query : Query) (explanation : Explanation)
    (later : Cells) (plan : Plan) (entries : List Entry) (steps : List Step) : Prop where
  planned : engine.plan query = .ok plan
  supplied : (engine.externalEntries plan).Yields entries
  placed : engine.steps plan entries = .ok steps
  contributed : steps.mapM (engine.contributionReady later plan.moduleId)
    = .ok explanation.contributions
  sameChain : explanation.chain = plan.chain
  sameAnnotation : explanation.annotationId = plan.annotationId

theorem ExplainsWith.exists_account (h : engine.ExplainsWith cells query explanation later) :
    ∃ plan entries steps, engine.Accounts query explanation later plan entries steps := by
  have hrun : (engine.explanation query).run cells = (.ok explanation, later) := by
    rcases h with ⟨hnow, rfl⟩ | hwaiting
    · exact Script.run_of_answer ((answer_explanation query).trans hnow)
    · exact hwaiting
  obtain ⟨plan, first, hplan, h⟩ := Script.of_run_bind hrun
  obtain ⟨entries, second, hentries, h⟩ := Script.of_run_bind h
  obtain ⟨steps, third, hsteps, h⟩ := Script.of_run_bind h
  obtain ⟨contributions, last, hcontributions, h⟩ := Script.of_run_bind h
  cases h
  refine ⟨plan, entries, steps, (Prod.mk.inj hplan).1,
    Script.yields_of_run (congrArg Prod.fst hentries), (Prod.mk.inj hsteps).1, ?_, rfl, rfl⟩
  -- The contributions never pause, so they are there at once in what their run leaves.
  have hnow := (prompt_contributions plan.moduleId steps).answer_of_run
    (congrArg Prod.fst hcontributions)
  rw [hcontributions, answer_contributions] at hnow
  exact hnow

section Accounts

variable {plan : Plan} {entries : List Entry} {steps : List Step}

theorem Accounts.origins
    (h : engine.Accounts query explanation later plan entries steps) :
    explanation.contributions.map Contribution.origin = steps.map (originOf plan.moduleId) :=
  origins_of_contributions
    (Script.yields_of_answer ((answer_contributions plan.moduleId steps).trans h.contributed))

theorem Accounts.step_of_mem
    (h : engine.Accounts query explanation later plan entries steps)
    {contribution : Contribution} (hmem : contribution ∈ explanation.contributions) :
    ∃ step ∈ steps, engine.contributionReady later plan.moduleId step = .ok contribution :=
  (Outcome.of_mapM_eq_ok h.contributed).2 contribution hmem

end Accounts

/-- What is picked from the origins of steps, when no entry is, is picked from the rules. -/
theorem filterMap_originOf {β : Type} {pick : Origin → Option β}
    (hexternal : ∀ moduleId index priority, pick (.external moduleId index priority) = none)
    (moduleId : String) (steps : List Step) :
    (steps.map (originOf moduleId)).filterMap pick
      = (Placement.rulesOf steps).filterMap fun found => pick (originOf moduleId (.inl found)) := by
  rw [List.filterMap_map, Placement.rulesOf, List.filterMap_filterMap]
  refine List.filterMap_congr fun step _ => ?_
  cases step with
  | inl found => rfl
  | inr indexed => exact hexternal moduleId indexed.2 _

end Engine

end Strata
