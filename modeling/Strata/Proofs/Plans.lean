import Strata.Engine
import Strata.Proofs.Ancestry
import Strata.Proofs.Store

/-!
# What is in a plan

A plan is made of what its request becomes: the canonical module and annotation, the chain
of the module, and the rules that match under the ids of the chain, the lists of all of them
one behind the other. A chain ends with the module that it is for and names no module twice.

What the store holds under an id are the registered rules that select it. So a rule is in a
plan, under an id of the chain, exactly if it selects the id and answers; `mem_rules_iff`
says so without the store.
-/

namespace Strata.Engine

variable {engine : Engine} {query : Query} {plan : Plan}

theorem of_plan_eq_ok (h : engine.plan query = .ok plan) :
    engine.canonicalId query.moduleId = .ok plan.moduleId
      ∧ engine.canonicalAnnotation query.annotationId = .ok plan.annotationId
      ∧ engine.chainOf query.inherit plan.moduleId = .ok plan.chain
      ∧ plan.rules = plan.chain.flatMap
        (engine.matching { context := engine.context, annotationId := plan.annotationId }) := by
  obtain ⟨_, -, h⟩ := Outcome.bind_eq_ok.mp h
  obtain ⟨moduleId, hmodule, h⟩ := Outcome.bind_eq_ok.mp h
  obtain ⟨annotationId, hannotation, h⟩ := Outcome.bind_eq_ok.mp h
  obtain ⟨chain, hchain, h⟩ := Outcome.bind_eq_ok.mp h
  cases h
  exact ⟨hmodule, hannotation, hchain, rfl⟩

/-! ## Chains -/

theorem of_chainOf_eq_ok {inherit : Bool} {id : String} {chain : List String}
    (h : engine.chainOf inherit id = .ok chain) : [id] <:+ chain ∧ chain.Nodup := by
  rw [chainOf] at h
  split at h
  · exact Metadata.of_chain_eq_ok h
  · cases h
    exact ⟨List.suffix_rfl, List.pairwise_singleton _ _⟩

theorem moduleId_mem_chain (h : engine.plan query = .ok plan) : plan.moduleId ∈ plan.chain :=
  (of_chainOf_eq_ok (of_plan_eq_ok h).2.2.1).1.subset List.mem_cons_self

theorem nodup_chain (h : engine.plan query = .ok plan) : plan.chain.Nodup :=
  (of_chainOf_eq_ok (of_plan_eq_ok h).2.2.1).2

theorem chain_of_single (h : engine.plan query = .ok plan) (hsingle : query.inherit = false) :
    plan.chain = [plan.moduleId] := by
  have hchain := (of_plan_eq_ok h).2.2.1
  rw [chainOf, hsingle, if_neg Bool.false_ne_true] at hchain
  exact (Except.ok.inj hchain).symm

theorem plan_of_single (h : engine.plan query = .ok plan) (hsingle : query.inherit = false) :
    ∃ request, plan.rules = engine.matching request plan.moduleId := by
  have hrules := (of_plan_eq_ok h).2.2.2
  rw [chain_of_single h hsingle] at hrules
  exact ⟨_, hrules.trans (List.append_nil _)⟩

/-! ## Rules -/

section Holds

variable {rules : List Rule} (h : engine.store.Holds rules) {found : String × Registered}
include h

/-- The rules found under a module id are the registered ones that select it and answer. -/
theorem mem_matching_iff {request : Request} {id : String} :
    found ∈ engine.matching request id ↔ found.1 = id
      ∧ rules[found.2.ordinal]? = some found.2.rule ∧ id ∈ found.2.rule.criteria.modules
      ∧ found.2.rule.criteria.answers request = true := by
  rw [matching, List.mem_map]
  constructor
  · rintro ⟨registered, hregistered, rfl⟩
    obtain ⟨hlisted, hanswers⟩ := List.mem_filter.mp hregistered
    obtain ⟨hrule, hselects⟩ := h.mem_rulesFor_iff.mp hlisted
    exact ⟨rfl, hrule, hselects, hanswers⟩
  · rintro ⟨rfl, hrule, hselects, hanswers⟩
    exact ⟨found.2, List.mem_filter.mpr ⟨h.mem_rulesFor_iff.mpr ⟨hrule, hselects⟩, hanswers⟩, rfl⟩

/-- The rules of a plan are the registered ones that select a module of its chain and
answer, under each such module. -/
theorem mem_rules_iff (hplan : engine.plan query = .ok plan) :
    found ∈ plan.rules ↔ found.1 ∈ plan.chain
      ∧ rules[found.2.ordinal]? = some found.2.rule ∧ found.1 ∈ found.2.rule.criteria.modules
      ∧ found.2.rule.criteria.answers
        { context := engine.context, annotationId := plan.annotationId } = true := by
  rw [(of_plan_eq_ok hplan).2.2.2, List.mem_flatMap]
  constructor
  · rintro ⟨id, hid, hfound⟩
    obtain ⟨rfl, hmatches⟩ := (mem_matching_iff h).mp hfound
    exact ⟨hid, hmatches⟩
  · rintro ⟨hid, hmatches⟩
    exact ⟨found.1, hid, (mem_matching_iff h).mpr ⟨rfl, hmatches⟩⟩

end Holds

end Strata.Engine
