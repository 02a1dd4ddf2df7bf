import Mathlib
import Strata.Proofs.AtHand

/-!
# At once and with waiting

A request that is answered at once has the same answer with waiting. Of the two ways a
request can be refused at once and not with waiting, one is that the provider takes time,
which the engines here exclude; the other is that a value is not loaded yet, and no other
refusal is any different with waiting.

An answer that was waited for is there at once ever after. Whatever else is resolved in
between, with loaders that fail or succeed, only adds to what is loaded, and an answer
does not depend on what it does not ask for.
-/

namespace Strata

open Script (Prompt)
open Cells (Keeps)

/-! ## Nothing to pause for -/

theorem Sources.prompt_resolve (sources : Sources) (contextId : Option String)
    (references : List String) : Prompt (sources.resolve contextId references) := by
  induction references with
  | nil => exact .finish _
  | cons reference rest ih =>
      rw [Sources.resolve]
      refine .bind (.finish _) fun id => .bind ?_ fun value => .bind ih fun values => .finish _
      unfold Sources.lookup
      split
      · exact .finish _
      · exact .finish _
      · exact .load fun value => .finish _

namespace Engine

/-- There is no provider, or it has its entries in a table. -/
def AnswersAtOnce (engine : Engine) : Prop :=
  engine.provider = none ∨ ∃ entries, engine.provider = some (.fixed entries)

variable {engine : Engine}

theorem prompt_externalEntries (h : engine.AnswersAtOnce) (plan : Plan) :
    Prompt (engine.externalEntries plan) := by
  unfold externalEntries
  split
  · next provider hprovider _ =>
      rcases h with hnone | ⟨entries, hfixed⟩
      · rw [hnone] at hprovider
        cases hprovider
      · rw [hfixed] at hprovider
        cases hprovider
        exact .finish _
  · exact .finish _

theorem prompt_contributions (moduleId : String)
    (steps : List ((String × Registered) ⊕ (Entry × Nat))) :
    Prompt (engine.contributions moduleId steps) := by
  induction steps with
  | nil => exact .finish _
  | cons step rest ih =>
      rw [contributions]
      refine .bind ?_ fun first => .bind ih fun others => .finish _
      rcases step with ⟨id, registered⟩ | ⟨entry, index⟩
      · exact .bind (Sources.prompt_resolve _ _ _) fun values => .finish _
      · exact .finish _

theorem prompt_explanation (h : engine.AnswersAtOnce) (query : Query) :
    Prompt (engine.explanation query) :=
  .bind (.finish _) fun plan => .bind (prompt_externalEntries h plan) fun _ =>
    .bind (.finish _) fun steps => .bind (prompt_contributions plan.moduleId steps)
      fun _ => .finish _

theorem prompt_selection (h : engine.AnswersAtOnce) (query : Query) :
    Prompt (engine.selection query) :=
  .bind (prompt_explanation h query) fun _ => .finish _

/-! ## Calls in between -/

/-- Something that is asked of an engine, or of the values that its rules depend on. -/
inductive Call
  | explain (query : Query)
  | select (query : Query)
  | explainWaiting (query : Query)
  | selectWaiting (query : Query)
  | resolve (contextId : Option String) (references : List String)
  | resolveReady (contextId : Option String) (references : List String)

/-- What is loaded after a call, whether it succeeds or not. -/
def cellsAfter (engine : Engine) (cells : Cells) : Call → Cells
  | .explain _ | .select _ | .resolveReady _ _ => cells
  | .explainWaiting query => (engine.explainWaiting cells query).2
  | .selectWaiting query => (engine.selectWaiting cells query).2
  | .resolve contextId references => ((engine.sources.resolve contextId references).run cells).2

theorem keeps_cellsAfter (cells : Cells) (call : Call) :
    Keeps cells (engine.cellsAfter cells call) := by
  cases call with
  | explain query | select query | resolveReady contextId references => exact .refl cells
  | explainWaiting query => exact Script.keeps_run _ cells
  | selectWaiting query => exact Script.keeps_run _ cells
  | resolve contextId references => exact Script.keeps_run _ cells

theorem keeps_calls (cells : Cells) (calls : List Call) :
    Keeps cells (calls.foldl engine.cellsAfter cells) := by
  induction calls generalizing cells with
  | nil => exact .refl cells
  | cons call rest ih => exact (keeps_cellsAfter cells call).trans (ih _)

/-! ## Agreement -/

/-- How one request is answered at once and with waiting. -/
structure Agrees {α : Type} (engine : Engine) (atOnce : Cells → Outcome α)
    (waiting : Cells → Outcome α × Cells) : Prop where
  /-- What is answered at once is answered with waiting, and nothing is loaded for it. -/
  answers : ∀ cells value, atOnce cells = .ok value → waiting cells = (.ok value, cells)
  /-- A refusal is no different with waiting, unless something was to be loaded. -/
  refuses : ∀ cells fault, atOnce cells = .error fault →
    (∀ id, fault ≠ .dependencyNotLoaded id) → waiting cells = (.error fault, cells)
  /-- What was answered with waiting is answered ever after, in either way. -/
  stays : ∀ cells value, (waiting cells).1 = .ok value → ∀ calls : List Call,
    let later := calls.foldl engine.cellsAfter (waiting cells).2
    atOnce later = .ok value ∧ waiting later = (.ok value, later)

theorem agrees_of_prompt {α : Type} {script : Script α} (h : Prompt script) (engine : Engine) :
    Agrees engine (fun cells => script.answer cells) fun cells => script.run cells where
  answers := fun _ _ hnow => Script.run_of_answer hnow
  refuses := fun _ _ hnow hfault => h.run_of_answer_error hnow hfault
  stays := by
    intro cells value hrun calls later
    have hnow : script.answer later = .ok value :=
      Script.answer_of_keeps (keeps_calls _ calls) (h.answer_of_run hrun)
    exact ⟨hnow, Script.run_of_answer hnow⟩

/-- With values that are loaded when needed and a provider that answers at once, if any,
a request is explained and its configuration selected alike at once and with waiting. -/
theorem atOnce_agrees_waiting (engine : Engine) (query : Query)
    (h : engine.AnswersAtOnce) :
    Agrees engine (fun cells => engine.explain cells query)
        (fun cells => engine.explainWaiting cells query)
      ∧ Agrees engine (fun cells => engine.select cells query)
        (fun cells => engine.selectWaiting cells query) := by
  have hexplain := agrees_of_prompt (prompt_explanation h query) engine
  have hselect := agrees_of_prompt (prompt_selection h query) engine
  simp only [answer_explanation] at hexplain
  simp only [answer_selection] at hselect
  exact ⟨hexplain, hselect⟩

/-- A rule that depends on a value. -/
def colouring : Rule :=
  { criteria := ⟨["page"], {}, none⟩, deps := ["palette"], contextId := none, priority := .zero
    apply := .computed fun values => some (.object [("colour", values.headD .null)]) }

/-- A load that fails at first. -/
def reluctant : Loader := fun call =>
  if call = 1 then .error (.reported .operationInvalid "busy") else .ok (.text "blue")

def reluctantEngine : Engine where
  context := {}
  metadata := Metadata.ofTables [] []
  sources := [("palette", .onDemand reluctant)]
  provider := some (.fixed [("page", [⟨none, .null⟩])])
  store := ({} : RuleStore).insert colouring

/-- What explains a page whose palette is known, with the external entry below the rule. -/
def coloured (palette : Json) : Explanation where
  moduleId := "page"
  annotationId := none
  chain := ["page"]
  contributions := [⟨.external "page" 0 .negInfinity, .empty⟩,
    ⟨.rule "page" none .zero 0 0 ["palette"], .object [("colour", palette)]⟩]

theorem reluctantEngine_explanation :
    reluctantEngine.explanation { moduleId := "page" }
      = .load "palette" reluctant fun palette => .finish (.ok (coloured palette)) := by
  let plan : Plan := ⟨"page", none, ["page"], [("page", ⟨colouring, 0⟩)]⟩
  have hplan : reluctantEngine.plan { moduleId := "page" } = .ok plan := by cbv
  have hsteps : reluctantEngine.steps plan [⟨none, .null⟩]
      = .ok [.inr (⟨none, .null⟩, 0), .inl ("page", ⟨colouring, 0⟩)] := by cbv
  calc reluctantEngine.explanation { moduleId := "page" }
    _ = (do
          let steps ← Script.ofOutcome (reluctantEngine.steps plan [⟨none, .null⟩])
          let contributions ← reluctantEngine.contributions "page" steps
          pure ⟨"page", none, ["page"], contributions⟩) := by
        rw [explanation, hplan]
        rfl
    _ = .load "palette" reluctant fun palette => .finish (.ok (coloured palette)) := by
        rw [hsteps]
        rfl

theorem reluctantEngine_agrees :
    let page : Query := { moduleId := "page" }
    let failed : Cells := [("palette", { calls := 1 })]
    let loaded := (reluctantEngine.explainWaiting failed page).2
    reluctantEngine.provider = some (.fixed [("page", [⟨none, .null⟩])])
      ∧ reluctantEngine.explainWaiting [] page
        = (.error (.reported .operationInvalid "busy"), failed)
      ∧ reluctantEngine.explain failed page = .error (.dependencyNotLoaded "palette")
      ∧ (reluctantEngine.explainWaiting failed page).1 = .ok (coloured (.text "blue"))
      ∧ reluctantEngine.explain
          ([Call.resolve none ["palette", "nothing"], .select page].foldl
            reluctantEngine.cellsAfter loaded) page = .ok (coloured (.text "blue")) := by
  intro page failed loaded
  have hloaded : (reluctantEngine.explainWaiting failed page).1
      = .ok (coloured (.text "blue")) := by
    rw [explainWaiting, reluctantEngine_explanation]
    cbv
  refine ⟨rfl, ?_, ?_, hloaded, ((atOnce_agrees_waiting reluctantEngine page
    (.inr ⟨_, rfl⟩)).1.stays failed _ hloaded _).1⟩
  · rw [explainWaiting, reluctantEngine_explanation]
    cbv
  · rw [← answer_explanation, reluctantEngine_explanation]
    rfl

end Engine

end Strata
