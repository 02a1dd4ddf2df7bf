import Strata.Proofs.Account

/-!
# How often a rule contributes

A rule stands once in the list of every module that it selects, and a chain names no module
twice. So under one module of the chain a rule is found once or not at all, and what it
contributes there is told from everything else by the module and the ordinal.

The lists of all modules of the chain are put one behind the other, and nothing is taken
out. A rule that selects several modules of the chain is found under each of them and
contributes as often.
-/

namespace Strata

/-- The module under which a rule was found, and its ordinal. -/
def Origin.appearance? : Origin → Option (String × Nat)
  | .rule moduleId _ _ _ ordinal _ => some (moduleId, ordinal)
  | .external _ _ _ => none

/-- The rules that contribute to an explanation, in their order. -/
def Explanation.appearances (explanation : Explanation) : List (String × Nat) :=
  explanation.contributions.filterMap fun contribution => contribution.origin.appearance?

def Explanation.ordinals (explanation : Explanation) : List Nat :=
  explanation.appearances.map Prod.snd

/-- An ordinal stands in distinct pairs as often as there are ids that it is paired with. -/
theorem count_map_snd {pairs : List (String × Nat)} {ids : List String} {ordinal : Nat}
    {selects : String → Bool} (hpairs : pairs.Nodup) (hids : ids.Nodup)
    (h : ∀ id, (id, ordinal) ∈ pairs ↔ id ∈ ids ∧ selects id = true) :
    (pairs.map Prod.snd).count ordinal = ids.countP selects := by
  have hperm : ((ids.filter selects).map fun id => (id, ordinal)).Perm
      (pairs.filter fun pair => pair.2 == ordinal) := by
    refine (List.perm_ext_iff_of_nodup ?_ (hpairs.filter _)).mpr fun ⟨id, other⟩ => ?_
    · exact (hids.filter _).map fun _ _ heq => congrArg Prod.fst heq
    · rw [List.mem_map, List.mem_filter, beq_iff_eq]
      constructor
      · rintro ⟨_, hmem, heq⟩
        cases heq
        exact ⟨(h id).mpr (List.mem_filter.mp hmem), rfl⟩
      · rintro ⟨hmem, rfl⟩
        exact ⟨id, List.mem_filter.mpr ((h id).mp hmem), rfl⟩
  rw [List.count, List.countP_map, List.countP_eq_length_filter, List.countP_eq_length_filter]
  exact hperm.length_eq.symm.trans (List.length_map _)

namespace Engine

open Placement

variable {engine : Engine} {query : Query} {plan : Plan}

/-! ## Plans -/

def appearance (found : String × Registered) : String × Nat :=
  (found.1, found.2.ordinal)

section Holds

variable {rules : List Rule} (hholds : engine.store.Holds rules)
include hholds

/-- No rule of a plan is found twice under one module. -/
theorem nodup_appearances (h : engine.plan query = .ok plan) :
    (plan.rules.map appearance).Nodup := by
  rw [(of_plan_eq_ok h).2.2.2, List.map_flatMap, List.nodup_flatMap]
  refine ⟨fun id _ => ?_, (nodup_chain h).imp fun {id other} hne => ?_⟩
  · refine List.Nodup.of_map Prod.snd ?_
    rw [matching, List.map_map, List.map_map]
    exact (hholds.nodup_ordinals id).sublist (List.filter_sublist.map Registered.ordinal)
  · rw [Function.onFun, List.disjoint_left]
    intro found hid hother
    obtain ⟨one, hone, rfl⟩ := List.mem_map.mp hid
    obtain ⟨two, htwo, hsame⟩ := List.mem_map.mp hother
    have hfirst := ((mem_matching_iff hholds).mp hone).1
    have hsecond := ((mem_matching_iff hholds).mp htwo).1
    exact hne (hfirst.symm.trans ((congrArg Prod.fst hsame).symm.trans hsecond))

theorem mem_appearances_iff (h : engine.plan query = .ok plan) {id : String} {ordinal : Nat} :
    (id, ordinal) ∈ plan.rules.map appearance ↔ id ∈ plan.chain ∧ ∃ rule,
      rules[ordinal]? = some rule ∧ id ∈ rule.criteria.modules ∧ rule.criteria.answers
        { context := engine.context, annotationId := plan.annotationId } = true := by
  rw [List.mem_map]
  constructor
  · rintro ⟨⟨_, registered⟩, hfound, heq⟩
    cases heq
    obtain ⟨hid, hrule⟩ := (mem_rules_iff hholds h).mp hfound
    exact ⟨hid, registered.rule, hrule⟩
  · rintro ⟨hid, rule, hrule⟩
    exact ⟨(id, ⟨rule, ordinal⟩), (mem_rules_iff hholds h).mpr ⟨hid, hrule⟩, rfl⟩

end Holds

/-! ## Explanations -/

theorem Accounts.appearances {explanation : Explanation} {later : Cells}
    {entries : List Entry} {steps : List Step}
    (h : engine.Accounts query explanation later plan entries steps) :
    explanation.appearances = plan.rules.map appearance := by
  calc explanation.appearances
    _ = (explanation.contributions.map Contribution.origin).filterMap Origin.appearance? := by
        rw [List.filterMap_map]
        rfl
    _ = (rulesOf steps).filterMap fun found => some (appearance found) := by
        rw [h.origins]
        exact filterMap_originOf (fun _ _ _ => rfl) plan.moduleId steps
    _ = plan.rules.map appearance := by
        rw [(interleaved_of_steps h.placed).rulesKept, List.filterMap_eq_map']

/-- The rules that appear in an explanation: distinct pairs of a module of the chain, all of
which are distinct, and the ordinal of a rule that selects it and answers. -/
structure Appears (rules : List Rule) (request : Request) (explanation : Explanation) : Prop where
  chain : explanation.chain.Nodup
  distinct : explanation.appearances.Nodup
  mem_iff : ∀ id ordinal, (id, ordinal) ∈ explanation.appearances ↔
    id ∈ explanation.chain ∧ ∃ rule, rules[ordinal]? = some rule
      ∧ id ∈ rule.criteria.modules ∧ rule.criteria.answers request = true

theorem appears_of_explains {sets : List RuleSet} {cells : Cells} {explanation : Explanation}
    (h : (engine.afterSets sets).Explains cells query explanation) :
    Appears (engine.accepted sets)
      { context := engine.context, annotationId := explanation.annotationId } explanation := by
  obtain ⟨later, hlater⟩ := h.exists_later
  obtain ⟨plan, entries, steps, haccount⟩ := hlater.exists_account
  have hholds := holds_afterSets engine sets
  refine ⟨?_, ?_, fun id ordinal => ?_⟩
  · rw [haccount.sameChain]
    exact nodup_chain haccount.planned
  · rw [haccount.appearances]
    exact nodup_appearances hholds haccount.planned
  · rw [haccount.appearances, haccount.sameChain, mem_appearances_iff hholds haccount.planned,
      context_afterSets, ← haccount.sameAnnotation]

section Appears

variable {rules : List Rule} {request : Request} {explanation : Explanation}

/-- A rule that answers contributes as often as it selects modules of the chain. -/
theorem Appears.count_ordinals (h : Appears rules request explanation) {ordinal : Nat}
    {rule : Rule} (hrule : rules[ordinal]? = some rule)
    (hanswers : rule.criteria.answers request = true) :
    explanation.ordinals.count ordinal
      = explanation.chain.countP fun id => id ∈ rule.criteria.modules := by
  refine count_map_snd h.distinct h.chain fun id => (h.mem_iff id ordinal).trans ?_
  rw [hrule, decide_eq_true_iff]
  constructor
  · rintro ⟨hid, _, hsame, hselects, -⟩
    cases hsame
    exact ⟨hid, hselects⟩
  · rintro ⟨hid, hselects⟩
    exact ⟨hid, rule, rfl, hselects, hanswers⟩

theorem Appears.nodup_ordinals_iff (h : Appears rules request explanation) :
    explanation.ordinals.Nodup ↔ ∀ rule ∈ rules, rule.criteria.answers request = true →
      (explanation.chain.countP fun id => id ∈ rule.criteria.modules) ≤ 1 := by
  rw [List.nodup_iff_count_le_one]
  constructor
  · intro hle rule hrule hanswers
    obtain ⟨ordinal, hordinal⟩ := List.mem_iff_getElem?.mp hrule
    rw [← h.count_ordinals hordinal hanswers]
    exact hle ordinal
  · intro hle ordinal
    by_cases hin : ordinal ∈ explanation.ordinals
    · obtain ⟨⟨id, _⟩, hpair, rfl⟩ := List.mem_map.mp hin
      obtain ⟨-, rule, hrule, -, hanswers⟩ := (h.mem_iff _ _).mp hpair
      rw [h.count_ordinals hrule hanswers]
      exact hle rule (List.mem_of_getElem? hrule) hanswers
    · rw [List.count_eq_zero_of_not_mem hin]
      exact Nat.zero_le 1

end Appears

theorem length_chain_of_single {cells : Cells} {explanation : Explanation}
    (hsingle : query.inherit = false) (h : engine.Explains cells query explanation) :
    explanation.chain.length = 1 := by
  obtain ⟨later, hlater⟩ := h.exists_later
  obtain ⟨plan, entries, steps, haccount⟩ := hlater.exists_account
  rw [haccount.sameChain, chain_of_single haccount.planned hsingle, List.length_singleton]

end Engine

/-- Whatever sets have been registered, a rule contributes to an explanation under those
modules of the chain that it selects, if its criteria answer, and once under each: so often
it contributes in all. Without inheritance no rule contributes twice; and otherwise none
does exactly if none that answers selects two modules of the chain. -/
theorem Engine.contributes_once_per_module (engine : Engine) (sets : List RuleSet)
    (cells : Cells) (query : Query) (explanation : Explanation)
    (h : (engine.afterSets sets).Explains cells query explanation) :
    let request : Request := { context := engine.context, annotationId := explanation.annotationId }
    Appears (engine.accepted sets) request explanation
    ∧ (∀ ordinal rule, (engine.accepted sets)[ordinal]? = some rule →
      rule.criteria.answers request = true → explanation.ordinals.count ordinal
        = explanation.chain.countP fun id => id ∈ rule.criteria.modules)
    ∧ (query.inherit = false → explanation.ordinals.Nodup)
    ∧ (explanation.ordinals.Nodup ↔ ∀ rule ∈ engine.accepted sets,
      rule.criteria.answers request = true →
        (explanation.chain.countP fun id => id ∈ rule.criteria.modules) ≤ 1) := by
  intro request
  have happears : Appears (engine.accepted sets) request explanation := appears_of_explains h
  refine ⟨happears, fun ordinal rule => happears.count_ordinals, fun hsingle => ?_,
    happears.nodup_ordinals_iff⟩
  refine happears.nodup_ordinals_iff.mpr fun rule _ _ => ?_
  exact length_chain_of_single hsingle h ▸ List.countP_le_length

namespace Engine

def pairEngine : Engine where
  context := {}
  metadata := (Registry.afterCommands
    [.addType "root" none, .addType "leaf" (some "root")]).metadata

def addingSpec (modules : List String) : RuleSpec where
  select := { modules := modules.map some }
  apply := .fixed (.object [("list",
    .object [("$op", .text "add"), ("value", .array [.integer 1])])])

def addingRule (modules : List String) : Rule :=
  ⟨⟨modules, {}, none⟩, [], (addingSpec modules).apply, none, .zero⟩

/-- What explains the lower type, when rules with these ordinals are found under each. -/
def pairExplanation (above below : Nat) : Explanation :=
  let adding (id : String) (ordinal : Nat) : Contribution :=
    ⟨.rule id none .zero 0 ordinal [], (addingSpec [id]).apply.fragment []⟩
  ⟨"leaf", none, ["root", "leaf"], [adding "root" above, adding "leaf" below]⟩

def apartSet : RuleSet where
  rules := [addingSpec ["root", "other"], addingSpec ["leaf"]]

theorem normalized_apartSet :
    pairEngine.normalized apartSet
      = .ok [addingRule ["root", "other"], addingRule ["leaf"]] := rfl

theorem apartSet_contributes_once :
    (pairEngine.afterSets [apartSet]).Explains [] { moduleId := "leaf", inherit := true }
        (pairExplanation 0 1)
      ∧ (pairExplanation 0 1).ordinals.Nodup := by
  have h : (pairEngine.afterSets [apartSet]).Explains [] { moduleId := "leaf", inherit := true }
      (pairExplanation 0 1) := by
    rw [afterSets_singleton normalized_apartSet]
    exact .inl (by cbv)
  have honce := (contributes_once_per_module pairEngine [apartSet] [] _ (pairExplanation 0 1)
    h).2.2.2
  refine ⟨h, honce.mpr fun rule hrule _ => ?_⟩
  rw [accepted, List.flatMap_singleton, normalized_apartSet] at hrule
  rcases List.mem_pair.mp hrule with rfl | rfl
  · decide
  · decide

def sharedSet : RuleSet where
  rules := [addingSpec ["root", "leaf"]]

/-- A rule for both types contributes twice and adds two items. -/
theorem sharedSet_contributes_twice :
    (pairEngine.afterSets [sharedSet]).explain [] { moduleId := "leaf", inherit := true }
        = .ok (pairExplanation 0 0)
      ∧ ¬ (pairExplanation 0 0).ordinals.Nodup
      ∧ (pairExplanation 0 0).result
        = .ok (some (.object [("list", .array [.integer 1, .integer 1])])) := by
  have hrules : pairEngine.normalized sharedSet = .ok [addingRule ["root", "leaf"]] := rfl
  rw [afterSets_singleton hrules]
  exact ⟨by cbv, by decide, by cbv⟩

end Engine

end Strata
