import Strata.Proofs.Interleaving
import Strata.Proofs.Waiting

/-!
# What a request asks for

A script may load a value only where it has a load for it, on whatever way it is taken:
`LoadsOnly` bounds all loads of a script at once, and a run touches no other cell. The
script of a request loads values for the rules of its plan, because external entries need
none and the steps have no other rules. So it asks for the values that a matching rule
depends on and for nothing else, and how anything else is defined makes no difference.
-/

namespace Strata

variable {α β : Type}

namespace Cells

variable {cells : Cells}

theorem cell_called_self (cells : Cells) (id : String) :
    (cells.called id).cell id
      = { cells.cell id with calls := (cells.cell id).calls + 1 } := by
  rw [called, cell, Fields.get?_put_self]
  rfl

theorem cell_called_of_ne {id other : String} (hother : other ≠ id) (cells : Cells) :
    (cells.called id).cell other = cells.cell other := by
  rw [called, cell, Fields.get?_put_of_ne hother]
  rfl

theorem cell_loaded_self (cells : Cells) (id : String) (value : Json) :
    (cells.loaded id value).cell id = { cells.cell id with value := some value } := by
  rw [loaded, cell, Fields.get?_put_self]
  rfl

theorem cell_loaded_of_ne {id other : String} (hother : other ≠ id) (cells : Cells)
    (value : Json) : (cells.loaded id value).cell other = cells.cell other := by
  rw [loaded, cell, Fields.get?_put_of_ne hother]
  rfl

end Cells

namespace Script

theorem ofOutcome_bind_congr {outcome : Outcome α} {next other : α → Script β}
    (h : ∀ value, outcome = .ok value → next value = other value) :
    ofOutcome outcome >>= next = ofOutcome outcome >>= other := by
  cases outcome with
  | error fault => rfl
  | ok value => exact h value rfl

/-- Every load that a script can come to is one of those demanded. -/
inductive LoadsOnly {α : Type} (demand : String → Loader → Prop) : Script α → Prop
  | finish (outcome : Outcome α) : LoadsOnly demand (.finish outcome)
  | pause {refusal : Fault} {rest : Script α} (h : LoadsOnly demand rest) :
      LoadsOnly demand (.pause refusal rest)
  | load {id : String} {loader : Loader} {next : Json → Script α} (hload : demand id loader)
      (h : ∀ value, LoadsOnly demand (next value)) : LoadsOnly demand (.load id loader next)

section LoadsOnly

variable {demand : String → Loader → Prop} {script : Script α}

theorem LoadsOnly.bind {next : α → Script β} (h : LoadsOnly demand script)
    (hnext : ∀ value, LoadsOnly demand (next value)) : LoadsOnly demand (script >>= next) := by
  induction h with
  | finish outcome =>
      cases outcome with
      | ok value => exact hnext value
      | error fault => exact .finish _
  | pause _ ih => exact .pause ih
  | load hload _ ih => exact .load hload ih

theorem LoadsOnly.ofOutcome_bind {outcome : Outcome α} {next : α → Script β}
    (h : ∀ value, outcome = .ok value → LoadsOnly demand (next value)) :
    LoadsOnly demand (ofOutcome outcome >>= next) := by
  cases outcome with
  | error fault => exact .finish _
  | ok value => exact h value rfl

theorem LoadsOnly.mono {more : String → Loader → Prop} (h : LoadsOnly demand script)
    (hmore : ∀ id loader, demand id loader → more id loader) : LoadsOnly more script := by
  induction h with
  | finish outcome => exact .finish outcome
  | pause _ ih => exact .pause ih
  | load hload _ ih => exact .load (hmore _ _ hload) ih

/-- A run leaves alone the cell of every value that is not demanded. -/
theorem LoadsOnly.cell_run (h : LoadsOnly demand script) {id : String}
    (hid : ∀ loader, ¬ demand id loader) (cells : Cells) :
    (script.run cells).2.cell id = cells.cell id := by
  induction h generalizing cells with
  | finish outcome => rfl
  | pause _ ih => exact ih cells
  | @load other loader next hload _ ih =>
      have hne : id ≠ other := by
        rintro rfl
        exact hid loader hload
      rw [run]
      split
      · next value _ => exact ih value cells
      · dsimp only
        split
        · next value _ =>
            rw [ih, Cells.cell_loaded_of_ne hne, Cells.cell_called_of_ne hne]
        · exact Cells.cell_called_of_ne hne cells

end LoadsOnly

end Script

open Script (LoadsOnly)

/-! ## References -/

namespace Sources

variable {sources other : Sources} {contextId : Option String} {references : List String}

def Asks (contextId : Option String) (references : List String) (id : String) : Prop :=
  ∃ reference ∈ references, Reference.resolve contextId reference = .ok id

theorem loadsOnly_resolve : (sources.resolve contextId references).LoadsOnly fun id loader =>
    Asks contextId references id ∧ Fields.get? id sources = some (.onDemand loader) := by
  induction references with
  | nil => exact .finish _
  | cons reference rest ih =>
      rw [resolve]
      refine .ofOutcome_bind fun id hreference => .bind ?_ fun value =>
        .bind (ih.mono ?_) fun values => .finish _
      · unfold lookup
        split
        · exact .finish _
        · exact .finish _
        · next loader hsource =>
            exact .load ⟨⟨reference, List.mem_cons_self, hreference⟩, hsource⟩
              fun value => .finish _
      · rintro other loader ⟨⟨found, hmem, hfound⟩, hsource⟩
        exact ⟨⟨found, List.mem_cons_of_mem _ hmem, hfound⟩, hsource⟩

/-- How values are defined that are not asked for makes no difference. -/
theorem resolve_congr (h : ∀ id, Asks contextId references id →
    Fields.get? id other = Fields.get? id sources) :
    other.resolve contextId references = sources.resolve contextId references := by
  induction references with
  | nil => rfl
  | cons reference rest ih =>
      rw [resolve, resolve, ih fun id ⟨found, hmem, hfound⟩ =>
        h id ⟨found, List.mem_cons_of_mem _ hmem, hfound⟩]
      refine Script.ofOutcome_bind_congr fun id hreference => ?_
      rw [lookup, lookup, h id ⟨reference, List.mem_cons_self, hreference⟩]

end Sources

namespace Engine

open Placement (rulesOf_interleave mem_rulesOf)

variable {engine : Engine} {query : Query}

/-- A rule that matches a request depends on the value `id`. -/
def DependsOn (engine : Engine) (query : Query) (id : String) : Prop :=
  ∃ plan, engine.plan query = .ok plan ∧ ∃ found ∈ plan.rules,
    Sources.Asks found.2.rule.contextId found.2.rule.deps id

def StepsAsk (steps : List Step) (id : String) : Prop :=
  ∃ found : String × Registered, .inl found ∈ steps
    ∧ Sources.Asks found.2.rule.contextId found.2.rule.deps id

theorem loadsOnly_contributions (moduleId : String) (steps : List Step) :
    (engine.contributions moduleId steps).LoadsOnly fun id loader =>
      StepsAsk steps id ∧ Fields.get? id engine.sources = some (.onDemand loader) := by
  induction steps with
  | nil => exact .finish _
  | cons step rest ih =>
      rw [contributions]
      refine LoadsOnly.bind ?_ fun first => .bind (ih.mono ?_) fun others => .finish _
      · rcases step with ⟨id, registered⟩ | ⟨entry, index⟩
        · refine .bind (Sources.loadsOnly_resolve.mono ?_) fun values => .finish _
          rintro other loader ⟨hasks, hsource⟩
          exact ⟨⟨_, List.mem_cons_self, hasks⟩, hsource⟩
        · exact .finish _
      · rintro other loader ⟨⟨found, hmem, hasks⟩, hsource⟩
        exact ⟨⟨found, List.mem_cons_of_mem _ hmem, hasks⟩, hsource⟩

theorem loadsOnly_externalEntries (demand : String → Loader → Prop) (plan : Plan) :
    (engine.externalEntries plan).LoadsOnly demand := by
  unfold externalEntries
  split
  · next provider _ _ =>
      refine .bind ?_ fun entries => .finish _
      cases provider with
      | fixed entries => exact .finish _
      | deferred answer => exact .pause (.finish _)
  · exact .finish _

/-- A request loads values that a matching rule depends on, as they are defined. -/
theorem loadsOnly_explanation (engine : Engine) (query : Query) :
    (engine.explanation query).LoadsOnly fun id loader =>
      engine.DependsOn query id ∧ Fields.get? id engine.sources = some (.onDemand loader) := by
  rw [explanation]
  refine .ofOutcome_bind fun plan hplan =>
    .bind (loadsOnly_externalEntries _ plan) fun entries =>
    .ofOutcome_bind fun steps hsteps =>
    .bind ((loadsOnly_contributions plan.moduleId steps).mono ?_) fun _ => .finish _
  rintro id loader ⟨⟨found, hmem, hasks⟩, hsource⟩
  exact ⟨⟨plan, hplan, found, mem_rules_of_steps hsteps hmem, hasks⟩, hsource⟩

theorem loadsOnly_selection (engine : Engine) (query : Query) :
    (engine.selection query).LoadsOnly fun id loader =>
      engine.DependsOn query id ∧ Fields.get? id engine.sources = some (.onDemand loader) :=
  .bind (loadsOnly_explanation engine query) fun _ => .finish _

/-! ## Other sources -/

theorem contributions_congr {sources : Sources} {moduleId : String} {steps : List Step}
    (h : ∀ id, StepsAsk steps id → Fields.get? id sources = Fields.get? id engine.sources) :
    ({ engine with sources } : Engine).contributions moduleId steps
      = engine.contributions moduleId steps := by
  induction steps with
  | nil => rfl
  | cons step rest ih =>
      rw [contributions, contributions, ih fun id ⟨found, hmem, hasks⟩ =>
        h id ⟨found, List.mem_cons_of_mem _ hmem, hasks⟩]
      rcases step with ⟨id, registered⟩ | ⟨entry, index⟩
      · rw [contribution, contribution, Sources.resolve_congr fun id hasks =>
          h id ⟨_, List.mem_cons_self, hasks⟩]
      · rfl

/-- How values are defined on which no matching rule depends makes no difference to a
request. -/
theorem explanation_congr {sources : Sources} (h : ∀ id, engine.DependsOn query id →
      Fields.get? id sources = Fields.get? id engine.sources) :
    ({ engine with sources } : Engine).explanation query = engine.explanation query := by
  have hexternal : ({ engine with sources } : Engine).externalEntries = engine.externalEntries :=
    rfl
  rw [explanation, explanation, hexternal]
  refine Script.ofOutcome_bind_congr fun plan hplan => bind_congr fun entries =>
    Script.ofOutcome_bind_congr fun steps hsteps => ?_
  rw [contributions_congr fun id ⟨found, hmem, hasks⟩ =>
    h id ⟨plan, hplan, found, mem_rules_of_steps hsteps hmem, hasks⟩]

end Engine

end Strata
