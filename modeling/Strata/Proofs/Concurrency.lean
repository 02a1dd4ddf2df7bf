import Mathlib
import Strata.Proofs.Turns

/-!
# Requests made at once

Requests that are made at once share what is loaded and nothing else. If the loaders that
they come to call do not fail and have one value each, a forecast holds of all of their
scripts together: which value an id has does not depend on who loads it or when. So a
request that is finished has the outcome that it has alone, in whatever order turns were
taken, and a loader is called once at most, for a value that one of the requests needs.

That they do get finished is counted. A request waits once for the provider and once for
each dependency of each rule that matches it; a wait takes three turns at most that get on,
and a round in which every request has a turn gets on.
-/

namespace Strata

open Script (LoadsOnly WaitsAtMost)
open Placement (rulesOf rulesOf_inl rulesOf_inr rulesOf_interleave)

/-! ## How often a request waits -/

theorem Sources.waitsAtMost_resolve (sources : Sources) (contextId : Option String)
    (references : List String) :
    WaitsAtMost references.length (sources.resolve contextId references) := by
  induction references with
  | nil => exact .finish _
  | cons reference rest ih =>
      rw [resolve, List.length_cons, Nat.add_comm]
      refine .ofOutcome_bind fun id _ => .bind ?_ fun value => ih.bind_finish _
      unfold lookup
      split
      · exact .finish _
      · exact .finish _
      · exact .load fun value => .finish _

namespace Engine

variable {engine : Engine}

def references (rules : List (String × Registered)) : List String :=
  rules.flatMap fun found => found.2.rule.deps

theorem waitsAtMost_contributions (moduleId : String) (steps : List Step) :
    WaitsAtMost (references (rulesOf steps)).length (engine.contributions moduleId steps) := by
  induction steps with
  | nil => exact .finish _
  | cons step rest ih =>
      rw [contributions]
      rcases step with ⟨id, registered⟩ | ⟨entry, index⟩
      · rw [rulesOf_inl, references, List.flatMap_cons, List.length_append]
        exact .bind ((Sources.waitsAtMost_resolve _ _ _).bind_finish _)
          fun first => ih.bind_finish _
      · exact ih.bind_finish _

theorem waitsAtMost_externalEntries (plan : Plan) :
    WaitsAtMost 1 (engine.externalEntries plan) := by
  unfold externalEntries
  split
  · next provider _ _ =>
      refine WaitsAtMost.bind_finish ?_ _
      cases provider with
      | fixed entries => exact .finish _
      | deferred answer => exact .pause (.finish _)
  · exact .finish _

theorem waitsAtMost_selection (engine : Engine) (query : Query) :
    WaitsAtMost (engine.waits query) (engine.selection query) := by
  refine WaitsAtMost.bind_finish ?_ _
  rw [explanation]
  refine .ofOutcome_bind fun plan hplan => ?_
  rw [waits, hplan]
  refine .bind (waitsAtMost_externalEntries plan) fun entries =>
    .ofOutcome_bind fun steps hsteps => WaitsAtMost.bind_finish ?_ _
  obtain ⟨-, rfl⟩ := steps_eq_ok.mp hsteps
  have hbound := @waitsAtMost_contributions engine plan.moduleId (Placement.interleave
    engine.options.externalTies (fun found => found.2.rule.priority)
    (fun indexed => indexed.1.effectivePriority) plan.rules entries.zipIdx)
  rw [rulesOf_interleave] at hbound
  exact hbound

theorem turnsLeft_start_lt (forecast : Forecast) (cells : Cells) (queries : List Query) :
    forecast.turnsLeft (Schedule.start cells (queries.map engine.selection))
      < engine.roundsFor queries := by
  suffices h : ∀ count, forecast.turnsLeft (Schedule.start cells (queries.map engine.selection))
      + count ≤ queries.foldl (fun rounds query => rounds + 3 * engine.waits query + 1) count
      from h 1
  simp only [Forecast.turnsLeft, Schedule.start]
  induction queries with
  | nil => exact fun count => Nat.le_of_eq (Nat.zero_add count)
  | cons query rest ih =>
      intro count
      have hfirst := (waitsAtMost_selection engine query).waits_le forecast
      have hrest := ih (count + 3 * engine.waits query + 1)
      rw [List.map_cons, List.map_cons, List.map_cons, total, List.foldr_cons, ← total,
        List.foldl_cons, Forecast.turns]
      omega

/-! ## Requests that share what is loaded -/

/-- The loaders that the requests come to call do not fail and have one value each. -/
def Reliable (engine : Engine) (queries : List Query) : Prop :=
  ∀ query ∈ queries, ∀ id loader, engine.DependsOn query id →
    Fields.get? id engine.sources = some (.onDemand loader) →
    ∃ value, ∀ call, loader call = .ok value

theorem Reliable.exists_forecast {queries : List Query} (h : engine.Reliable queries)
    (cells : Cells) :
    ∃ forecast : Forecast, forecast.initial = cells
      ∧ (forecast.Demanded = fun id => ∃ query ∈ queries, engine.DependsOn query id)
      ∧ (∀ id value, cells.value? id = some value → value = forecast.value id)
      ∧ ∀ query ∈ queries, (engine.selection query).LoadsOnly forecast.Allows := by
  have hvalues : ∀ id, ∃ value, (∀ held, cells.value? id = some held → held = value)
      ∧ ∀ query ∈ queries, ∀ loader, engine.DependsOn query id →
        Fields.get? id engine.sources = some (.onDemand loader) → cells.value? id = none →
        ∀ call, loader call = .ok value := by
    intro id
    cases hheld : cells.value? id with
    | some held =>
        refine ⟨held, fun _ heq => (Option.some.inj heq).symm, ?_⟩
        intro query _ loader _ _ hnone
        cases hnone
    | none =>
        by_cases hknown : ∃ loader value, Fields.get? id engine.sources = some (.onDemand loader)
            ∧ ∀ call, loader call = .ok value
        · obtain ⟨loader, value, hsource, hvalue⟩ := hknown
          refine ⟨value, nofun, ?_⟩
          intro query _ other _ hother _
          cases hsource.symm.trans hother
          exact hvalue
        · refine ⟨.null, nofun, ?_⟩
          intro query hquery loader hdepends hsource _
          obtain ⟨value, hvalue⟩ := h query hquery id loader hdepends hsource
          exact absurd ⟨loader, value, hsource, hvalue⟩ hknown
  obtain ⟨value, hvalue⟩ := Classical.skolem.mp hvalues
  refine ⟨⟨cells, value, _⟩, rfl, rfl, fun id => (hvalue id).1, fun query hquery =>
    (loadsOnly_selection engine query).mono fun id loader hdemand =>
      ⟨⟨query, hquery, hdemand.1⟩, ?_⟩⟩
  exact (hvalue id).2 query hquery loader hdemand.1 hdemand.2

/-- Made at once, reliable requests are on their way to the outcomes that they have alone. -/
theorem Reliable.exists_steady {queries : List Query} (h : engine.Reliable queries)
    (cells : Cells) :
    ∃ forecast : Forecast, forecast.initial = cells
      ∧ (forecast.Demanded = fun id => ∃ query ∈ queries, engine.DependsOn query id)
      ∧ forecast.Steady (queries.map fun query => (engine.selectWaiting cells query).1)
        (Schedule.start cells (queries.map engine.selection)) := by
  obtain ⟨forecast, rfl, hdemanded, hvalues, hallowed⟩ := h.exists_forecast cells
  refine ⟨forecast, rfl, hdemanded, ?_⟩
  have halone : ∀ query ∈ queries, forecast.outcome (engine.selection query)
      = (engine.selectWaiting forecast.initial query).1 := fun query hquery =>
    (Forecast.Holds.run ⟨.refl _, hvalues⟩ (hallowed query hquery)).symm
  have hscripts : ∀ script ∈ queries.map engine.selection,
      script.LoadsOnly forecast.Allows := by
    intro script hscript
    obtain ⟨query, hquery, rfl⟩ := List.mem_map.mp hscript
    exact hallowed query hquery
  have hsteady := Forecast.steady_start hscripts hvalues
  rw [List.map_map] at hsteady
  rw [← List.map_congr_left halone]
  exact hsteady

/-- Requests made at once do not disturb each other, if the loaders that they come to call
do not fail and have one value each. In whatever order turns are taken, a request that is
finished has the outcome that it has alone; all are finished once every request has had a
turn in sufficiently many rounds; and a loader is called at most once, if its value was not
there before and a rule that matches one of the requests depends on it. -/
theorem concurrent_requests_independent (engine : Engine) (cells : Cells)
    (queries : List Query) (hreliable : engine.Reliable queries) :
    let start := Schedule.start cells (queries.map engine.selection)
    (∀ (order : List Nat) (index : Nat) (outcome : Outcome (Option Json)),
      (start.polls order).outcomes[index]? = some (some outcome) →
      ∃ query, queries[index]? = some query ∧ outcome = (engine.selectWaiting cells query).1)
    ∧ (∀ parts : List (List Nat), (∀ part ∈ parts, ∀ index < queries.length, index ∈ part) →
      engine.roundsFor queries ≤ parts.length →
      (start.polls parts.flatten).outcomes
        = queries.map fun query => some (engine.selectWaiting cells query).1)
    ∧ (∀ (order : List Nat) (id : String),
      let calls := ((start.polls order).shared.cells.cell id).calls
      calls = (cells.cell id).calls
        ∨ calls = (cells.cell id).calls + 1 ∧ cells.value? id = none
          ∧ ∃ query ∈ queries, engine.DependsOn query id)
    ∧ (engine.selectAll cells queries).1
      = queries.map fun query => some (engine.selectWaiting cells query).1 := by
  intro start
  obtain ⟨forecast, rfl, hdemanded, hstart⟩ := hreliable.exists_steady cells
  have hparts : ∀ parts : List (List Nat),
      (∀ part ∈ parts, ∀ index < queries.length, index ∈ part) →
      engine.roundsFor queries ≤ parts.length →
      (start.polls parts.flatten).outcomes
        = queries.map fun query => some (engine.selectWaiting forecast.initial query).1 := by
    intro parts hcover hcount
    have hfinished : (start.polls parts.flatten).Finished := by
      refine hstart.rounds ?_ (Nat.lt_of_lt_of_le (turnsLeft_start_lt forecast _ queries) hcount)
      rw [List.length_map]
      exact hcover
    rw [(hstart.polls parts.flatten).1.outcomes_of_finished hfinished, List.map_map]
    rfl
  refine ⟨fun order index outcome houtcome => ?_, hparts, fun order id => ?_, ?_⟩
  · have hfound := (hstart.polls order).1.outcome_of_finished houtcome
    rw [List.getElem?_map] at hfound
    obtain ⟨query, hquery, rfl⟩ := Option.map_eq_some_iff.mp hfound
    exact ⟨query, hquery, rfl⟩
  · have hcalls := (hstart.polls order).1.calls id
    rw [hdemanded] at hcalls
    exact hcalls
  · refine hparts _ (fun part hpart index hindex => ?_) (Nat.le_of_eq List.length_replicate.symm)
    rw [(List.mem_replicate.mp hpart).2, List.mem_range]
    show index < ((queries.map engine.selection).map Task.ready).length
    rwa [List.length_map, List.length_map]

/-! ### A shared value -/

def tinting (id : String) : Rule where
  criteria := ⟨[id], {}, none⟩
  deps := ["palette"]
  apply := .computed fun values => some (.object [("colour", values.headD .null)])
  contextId := none
  priority := .zero

def widening : Entry := ⟨none, .object [("width", .integer 3)]⟩

/-- Rules that share a value which is loaded on demand, and a provider that takes time. -/
def sharingEngine : Engine where
  context := {}
  metadata := Metadata.ofTables [] []
  sources := [("palette", .onDemand fun _ => .ok (.text "blue"))]
  provider := some (.deferred fun _ => .ok (some [widening]))
  store := (({} : RuleStore).insert (tinting "page")).insert (tinting "sidebar")

def sharingQueries : List Query :=
  [{ moduleId := "page" }, { moduleId := "sidebar" }, { moduleId := "page" }]

theorem reliable_sharingEngine : sharingEngine.Reliable sharingQueries := by
  intro query _ id loader _ hsource
  refine ⟨.text "blue", ?_⟩
  by_cases hid : id = "palette"
  · subst hid
    cases hsource
    exact fun _ => rfl
  · cases (Fields.get?_put_of_ne hid _ []).symm.trans hsource

theorem sharingEngine_selectWaiting {id : String} {ordinal : Nat}
    (hplan : sharingEngine.plan { moduleId := id }
      = .ok ⟨id, none, [id], [(id, ⟨tinting id, ordinal⟩)]⟩) :
    (sharingEngine.selectWaiting [] { moduleId := id }).1
      = .ok (some (.object [("colour", .text "blue"), ("width", .integer 3)])) := by
  have hsteps : sharingEngine.steps ⟨id, none, [id], [(id, ⟨tinting id, ordinal⟩)]⟩ [widening]
      = .ok [.inr (widening, 0), .inl (id, ⟨tinting id, ordinal⟩)] := by cbv
  have hexplanation : sharingEngine.explanation { moduleId := id }
      = .pause (.externalNotReady id) (.load "palette" (fun _ => .ok (.text "blue"))
        fun palette => .finish (.ok ⟨id, none, [id],
          [⟨.external id 0 .negInfinity, .object [("width", .integer 3)]⟩,
            ⟨.rule id none .zero 0 ordinal ["palette"],
              .object [("colour", palette)]⟩]⟩)) := calc
    _ = .pause (.externalNotReady id) (do
          let steps ← Script.ofOutcome (sharingEngine.steps
            ⟨id, none, [id], [(id, ⟨tinting id, ordinal⟩)]⟩ [widening])
          let contributions ← sharingEngine.contributions id steps
          pure ⟨id, none, [id], contributions⟩) := by
        rw [explanation, hplan]
        rfl
    _ = _ := by
        rw [hsteps]
        rfl
  rw [selectWaiting, selection, hexplanation]
  cbv

theorem sharingEngine_independent :
    let answer : Option (Outcome (Option Json)) :=
      some (.ok (some (.object [("colour", .text "blue"), ("width", .integer 3)])))
    let start := Schedule.start [] (sharingQueries.map sharingEngine.selection)
    let order := (List.replicate 22 [2, 0, 1, 2]).flatten
    sharingEngine.Reliable sharingQueries
      ∧ (start.polls order).outcomes = [answer, answer, answer]
      ∧ ((start.polls order).shared.cells.cell "palette").calls ≤ 1
      ∧ (sharingEngine.selectAll [] sharingQueries).1 = [answer, answer, answer] := by
  intro answer start order
  obtain ⟨-, hparts, hcalls, hall⟩ := concurrent_requests_independent sharingEngine []
    sharingQueries reliable_sharingEngine
  have hpage := @sharingEngine_selectWaiting "page" 0 (by cbv)
  have hsidebar := @sharingEngine_selectWaiting "sidebar" 1 (by cbv)
  have halone : (sharingQueries.map fun query => some (sharingEngine.selectWaiting [] query).1)
      = [answer, answer, answer] := by
    rw [sharingQueries, List.map_cons, List.map_cons, List.map_cons, hpage, hsidebar]
    rfl
  refine ⟨reliable_sharingEngine, ?_, ?_, hall.trans halone⟩
  · refine (hparts (List.replicate 22 [2, 0, 1, 2]) (fun part hpart index hindex => ?_)
      (Nat.le_of_eq (by cbv))).trans halone
    rw [List.eq_of_mem_replicate hpart]
    exact (by decide : ∀ index < 3, index ∈ [2, 0, 1, 2]) index hindex
  · rcases hcalls order "palette" with hnone | ⟨hone, -⟩
    · rw [hnone]
      exact Nat.zero_le 1
    · rw [hone]
      exact Nat.le_refl 1

end Engine

end Strata
