import Mathlib
import Strata.Proofs.AtHand
import Strata.Proofs.Interleaving
import Strata.Proofs.Plans
import Strata.Proofs.Registration
import Strata.Proofs.Yields

/-!
# The cascade of a single module

An explanation lists what the steps of its plan contribute, step by step, however it
was come by. So the order of the contributions is the order of the steps.

The rules of a single module ascend in the total order of priorities, because the
store keeps them so, and no priority is NaN, because none was registered. So they
ascend numerically, and then the first rule that an entry stands in front of decides
about all behind it. What is left is to compare an entry with a rule: by where it
stands if it is in front, and if it is behind by the rule that keeps it there, which
is no lower than the first. The zeros take no special care, since only the numeric
order is asked about and the total order refines it.
-/

namespace Strata

/-- The priority that a contribution is placed by. -/
def Origin.priority : Origin → Binary64
  | .rule _ _ priority _ _ _ => priority
  | .external _ _ priority => priority

def Origin.isExternal : Origin → Bool
  | .rule _ _ _ _ _ _ => false
  | .external _ _ _ => true

namespace Engine

open Placement

variable {engine : Engine} {query : Query}

/-! ## Contributions -/

def originOf (moduleId : String) : Step → Origin
  | .inl (id, registered) =>
    .rule id registered.rule.contextId registered.rule.priority
      registered.rule.criteria.specificity registered.ordinal registered.rule.deps
  | .inr (entry, index) => .external moduleId index entry.effectivePriority

theorem origin_of_contribution {moduleId : String} {step : Step} {result : Contribution}
    (h : (engine.contribution moduleId step).Yields result) :
    result.origin = originOf moduleId step := by
  rcases step with ⟨id, registered⟩ | ⟨entry, index⟩
  · obtain ⟨values, -, hvalues⟩ := Script.yields_bind.mp h
    rw [Script.yields_pure.mp hvalues]
    rfl
  · rw [Script.yields_pure.mp h]
    rfl

theorem origins_of_contributions {moduleId : String} {steps : List Step}
    {results : List Contribution}
    (h : (engine.contributions moduleId steps).Yields results) :
    results.map Contribution.origin = steps.map (originOf moduleId) := by
  induction steps generalizing results with
  | nil => rw [Script.yields_pure.mp h, List.map_nil, List.map_nil]
  | cons step rest ih =>
      obtain ⟨first, hfirst, h⟩ := Script.yields_bind.mp h
      obtain ⟨others, hothers, h⟩ := Script.yields_bind.mp h
      rw [Script.yields_pure.mp h, List.map_cons, List.map_cons,
        origin_of_contribution hfirst, ih hothers]

/-- An explanation follows the steps of the plan of its request. -/
theorem of_explanation {explanation : Explanation}
    (h : (engine.explanation query).Yields explanation) :
    ∃ plan entries steps, engine.plan query = .ok plan
      ∧ engine.steps plan entries = .ok steps
      ∧ explanation.contributions.map Contribution.origin
        = steps.map (originOf plan.moduleId) := by
  obtain ⟨plan, hplan, h⟩ := Script.yields_bind.mp h
  obtain ⟨entries, -, h⟩ := Script.yields_bind.mp h
  obtain ⟨steps, hsteps, h⟩ := Script.yields_bind.mp h
  obtain ⟨results, hresults, h⟩ := Script.yields_bind.mp h
  rw [Script.yields_pure.mp h]
  exact ⟨plan, entries, steps, Script.yields_ofOutcome.mp hplan,
    Script.yields_ofOutcome.mp hsteps, origins_of_contributions hresults⟩

/-- An explanation that the engine gives, at once or with all waiting done. -/
def Explains (engine : Engine) (cells : Cells) (query : Query) (explanation : Explanation) :
    Prop :=
  engine.explain cells query = .ok explanation
    ∨ (engine.explainWaiting cells query).1 = .ok explanation

theorem Explains.yields {cells : Cells} {explanation : Explanation}
    (h : engine.Explains cells query explanation) :
    (engine.explanation query).Yields explanation :=
  h.elim (fun hnow => Script.yields_of_answer ((answer_explanation query).trans hnow))
    Script.yields_of_run

/-! ## A single module -/

/-- How the contributions of a single module are ordered: no priority is NaN, the
priorities ascend numerically, and where they are equal the entries come first if
rules win ties and last if entries do. -/
structure Ascends (ties : TieBreak) (contributions : List Contribution) : Prop where
  numbers : ∀ contribution ∈ contributions, contribution.origin.priority.isNaN = false
  ascending : contributions.Pairwise fun x y =>
    x.origin.priority.numericLe y.origin.priority = true
  internalWins : ties = .internalWins → contributions.Pairwise fun x y =>
    y.origin.priority.numericLe x.origin.priority = true →
      ¬ (x.origin.isExternal = false ∧ y.origin.isExternal = true)
  externalWins : ties = .externalWins → contributions.Pairwise fun x y =>
    y.origin.priority.numericLe x.origin.priority = true →
      ¬ (x.origin.isExternal = true ∧ y.origin.isExternal = false)

/-- Whether an origin may stand before another in the cascade of a single module. -/
def MayPrecede (ties : TieBreak) (x y : Origin) : Prop :=
  x.priority.numericLe y.priority = true
    ∧ (y.priority.numericLe x.priority = true → match ties with
      | .internalWins => ¬ (x.isExternal = false ∧ y.isExternal = true)
      | .externalWins => ¬ (x.isExternal = true ∧ y.isExternal = false))

theorem MayPrecede.of_numericLt {ties : TieBreak} {x y : Origin}
    (h : x.priority.numericLt y.priority = true) : MayPrecede ties x y :=
  ⟨Binary64.numericLe_of_numericLt h,
    fun hback => absurd hback (Binary64.not_numericLe_of_numericLt h)⟩

/-- Within one source no tie is to be decided. -/
theorem MayPrecede.of_same {ties : TieBreak} {x y : Origin}
    (h : x.priority.numericLe y.priority = true) (hsame : x.isExternal = y.isExternal) :
    MayPrecede ties x y := by
  refine ⟨h, fun _ => ?_⟩
  cases ties with
  | internalWins =>
      intro hboth
      rw [hsame, hboth.2] at hboth
      cases hboth.1
  | externalWins =>
      intro hboth
      rw [hsame, hboth.2] at hboth
      cases hboth.1

/-- Rules whose priorities are numbers and ascend as such. -/
structure RulesAscend (rules : List (String × Registered)) : Prop where
  numbers : ∀ rule ∈ rules, rule.2.rule.priority.isNaN = false
  sorted : rules.Pairwise fun x y => x.2.rule.priority.numericLe y.2.rule.priority = true

section Interleaved

variable {ties : TieBreak} {rules : List (String × Registered)} {entries : List Entry}
  {steps before behind : List Step} {rule : String × Registered} {indexed : Entry × Nat}
  {moduleId : String}

theorem Interleaved.not_mem_before (h : Interleaved ties rules entries steps)
    (hsplit : steps = before ++ .inl rule :: behind) (hmem : indexed ∈ entriesOf behind) :
    .inr indexed ∉ before := by
  have hnodup : (entriesOf steps).Nodup := h.eachOnce.nodup_iff.mpr
    ((pairwise_snd_zipIdx entries).imp fun hlt heq => by rw [heq] at hlt; omega)
  rw [hsplit, entriesOf_append, entriesOf_inl] at hnodup
  intro hbefore
  exact (List.nodup_append.mp hnodup).2.2 indexed (mem_entriesOf.mpr hbefore) indexed hmem rfl

theorem Interleaved.mem_rules (h : Interleaved ties rules entries steps)
    (hsplit : steps = before ++ .inl rule :: behind) : rule ∈ rules := by
  rw [← h.rulesKept, hsplit]
  exact mem_rulesOf.mpr (List.mem_append_right _ List.mem_cons_self)

theorem Interleaved.mem_zipIdx (h : Interleaved ties rules entries steps)
    (hmem : .inr indexed ∈ steps) : indexed ∈ entries.zipIdx :=
  h.eachOnce.mem_iff.mp (mem_entriesOf.mpr hmem)

theorem Interleaved.le_of_mem_from (h : Interleaved ties rules entries steps)
    (hrules : RulesAscend rules) (hsplit : steps = before ++ .inl rule :: behind) :
    ∀ other ∈ rule :: rulesOf behind,
      rule.2.rule.priority.numericLe other.2.rule.priority = true := by
  have hrule := hrules.numbers rule (h.mem_rules hsplit)
  have hsorted := hrules.sorted
  rw [← h.rulesKept, hsplit, rulesOf_append, rulesOf_inl] at hsorted
  obtain ⟨hfirst, -⟩ := List.pairwise_cons.mp (List.pairwise_append.mp hsorted).2.1
  exact List.forall_mem_cons.mpr
    ⟨Binary64.numericLe_iff.mpr ⟨hrule, hrule, Int.le_refl _⟩, hfirst⟩

/-- An entry behind a rule has no lower priority, nor the same if entries come first. -/
theorem Interleaved.mayPrecede_behind (h : Interleaved ties rules entries steps)
    (hrules : RulesAscend rules) (hsplit : steps = before ++ .inl rule :: behind)
    (hmem : indexed ∈ entriesOf behind) :
    MayPrecede ties (originOf moduleId (.inl rule)) (originOf moduleId (.inr indexed)) := by
  have hfrom := h.le_of_mem_from hrules hsplit
  have habsent := h.not_mem_before hsplit hmem
  have hentry : indexed ∈ entries.zipIdx := by
    refine h.mem_zipIdx ?_
    rw [hsplit]
    exact List.mem_append_right _ (List.mem_cons_of_mem _ (mem_entriesOf.mp hmem))
  cases ties with
  | internalWins =>
      have hlower : rule.2.rule.priority.numericLt indexed.1.effectivePriority = true := by
        refine Decidable.byContradiction fun hnot => habsent ?_
        refine (h.internalWins rfl before rule behind hsplit indexed hentry).mpr ?_
        exact fun other hother hlt =>
          hnot (Binary64.numericLt_of_le_of_lt (hfrom other hother) hlt)
      exact .of_numericLt hlower
  | externalWins =>
      have hlower : rule.2.rule.priority.numericLe indexed.1.effectivePriority = true := by
        refine Decidable.byContradiction fun hnot => habsent ?_
        refine (h.externalWins rfl before rule behind hsplit indexed hentry).mpr ?_
        exact fun other hother hle =>
          hnot (Binary64.numericLe_trans (hfrom other hother) hle)
      exact ⟨hlower, fun _ hboth => Bool.false_ne_true hboth.1⟩

/-- An entry in front of a rule has no higher priority, nor the same if entries come
last. -/
theorem Interleaved.mayPrecede_before (h : Interleaved ties rules entries steps)
    (hrules : RulesAscend rules)
    (hentries : ∀ entry ∈ entries, entry.effectivePriority.isNaN = false)
    (hsplit : steps = before ++ .inl rule :: behind) (hmem : indexed ∈ entriesOf before) :
    MayPrecede ties (originOf moduleId (.inr indexed)) (originOf moduleId (.inl rule)) := by
  have hfront := mem_entriesOf.mp hmem
  have hentry : indexed ∈ entries.zipIdx := by
    refine h.mem_zipIdx ?_
    rw [hsplit]
    exact List.mem_append_left _ hfront
  have hle := Binary64.numericLe_of_not_numericLt
    (hentries _ (List.fst_mem_of_mem_zipIdx hentry))
    (hrules.numbers rule (h.mem_rules hsplit))
    (h.notOverridden before rule behind hsplit indexed hfront)
  refine ⟨hle, fun hback => ?_⟩
  cases ties with
  | internalWins => exact fun hboth => Bool.false_ne_true hboth.1.symm
  | externalWins =>
      have hfree := (h.externalWins rfl before rule behind hsplit indexed hentry).mp hfront
      exact absurd hback (hfree rule List.mem_cons_self)

/-- Among rules that ascend, the whole sequence ascends. -/
theorem Interleaved.pairwise_mayPrecede (h : Interleaved ties rules entries steps)
    (hrules : RulesAscend rules)
    (hentries : ∀ entry ∈ entries, entry.effectivePriority.isNaN = false)
    (moduleId : String) :
    steps.Pairwise fun x y => MayPrecede ties (originOf moduleId x) (originOf moduleId y) := by
  refine pairwise_of_split ?_ ?_ fun before rule behind hsplit => ⟨?_, ?_⟩
  · rw [h.rulesKept]
    exact hrules.sorted.imp fun hle => .of_same hle rfl
  · refine h.ascending.imp_of_mem fun {x y} hx hy hbefore => .of_same ?_ rfl
    have hnumber : ∀ z ∈ entriesOf steps, z.1.effectivePriority.isNaN = false := fun z hz =>
      hentries _ (List.fst_mem_of_mem_zipIdx (h.mem_zipIdx (mem_entriesOf.mp hz)))
    rw [EntryBefore, Ordering.then_eq_lt, Binary64.compareTotal_eq_lt,
      Binary64.compareTotal_eq_eq] at hbefore
    have hle : x.1.effectivePriority.totalKey ≤ y.1.effectivePriority.totalKey := by omega
    exact Binary64.numericLe_of_totalKey_le (hnumber x hx) (hnumber y hy) hle
  · exact fun indexed hmem => h.mayPrecede_before hrules hentries hsplit hmem
  · exact fun indexed hmem => h.mayPrecede_behind hrules hsplit hmem

/-- No step has a NaN as its priority. -/
theorem Interleaved.priority_of_mem (h : Interleaved ties rules entries steps)
    (hrules : RulesAscend rules)
    (hentries : ∀ entry ∈ entries, entry.effectivePriority.isNaN = false)
    (moduleId : String) :
    ∀ origin ∈ steps.map (originOf moduleId), origin.priority.isNaN = false := by
  intro origin horigin
  obtain ⟨step, hmem, rfl⟩ := List.mem_map.mp horigin
  cases step with
  | inl rule =>
      refine hrules.numbers rule ?_
      rw [← h.rulesKept]
      exact mem_rulesOf.mpr hmem
  | inr indexed => exact hentries _ (List.fst_mem_of_mem_zipIdx (h.mem_zipIdx hmem))

end Interleaved

section Matching

variable {rules : List Rule} {request : Request} {id : String}

theorem priority_of_mem_matching (h : engine.store.Holds rules)
    (hvalid : ∀ rule ∈ rules, rule.Valid) {found : String × Registered}
    (hmem : found ∈ engine.matching request id) :
    found.2.rule.priority.isNaN = false := by
  exact (hvalid _ (List.mem_of_getElem? ((mem_matching_iff h).mp hmem).2.1)).priority

/-- The rules found under one module id ascend. -/
theorem matching_ascends (h : engine.store.Holds rules)
    (hvalid : ∀ rule ∈ rules, rule.Valid) : RulesAscend (engine.matching request id) := by
  refine ⟨fun found => priority_of_mem_matching h hvalid, ?_⟩
  have hbefore : (engine.matching request id).Pairwise fun x y =>
      Registered.Before x.2 y.2 :=
    List.pairwise_map.mpr ((h.ascending id).filter _)
  refine hbefore.imp_of_mem fun {x y} hx hy hless => ?_
  rw [Registered.before_iff] at hless
  have hle : x.2.rule.priority.totalKey ≤ y.2.rule.priority.totalKey := by omega
  exact Binary64.numericLe_of_totalKey_le (priority_of_mem_matching h hvalid hx)
    (priority_of_mem_matching h hvalid hy) hle

end Matching

/-- Without inheritance the contributions ascend in priority across both sources,
whatever sets have been registered and whatever the provider answers. -/
theorem single_module_ascends (engine : Engine) (sets : List RuleSet) (cells : Cells)
    (query : Query) (explanation : Explanation) (hsingle : query.inherit = false)
    (h : (engine.afterSets sets).Explains cells query explanation) :
    Ascends engine.options.externalTies explanation.contributions := by
  obtain ⟨plan, entries, steps, hplan, hsteps, horigins⟩ := of_explanation h.yields
  obtain ⟨request, hmatching⟩ := plan_of_single hplan hsingle
  have hrules : RulesAscend plan.rules := by
    rw [hmatching]
    exact matching_ascends (holds_afterSets engine sets) fun _ => valid_of_mem_accepted
  have hentries := (steps_eq_ok.mp hsteps).1
  have hsequence := interleaved_of_steps hsteps
  have hties : (engine.afterSets sets).options = engine.options := by
    rw [afterSets_eq]
  rw [hties] at hsequence
  have hnumbers := hsequence.priority_of_mem hrules hentries plan.moduleId
  rw [← horigins, List.forall_mem_map] at hnumbers
  have hpairs := hsequence.pairwise_mayPrecede hrules hentries plan.moduleId
  rw [← List.pairwise_map, ← horigins, List.pairwise_map] at hpairs
  refine ⟨hnumbers, hpairs.imp fun hpair => hpair.1, ?_, ?_⟩
  · intro hinternal
    rw [hinternal] at hpairs
    exact hpairs.imp fun hpair => hpair.2
  · intro hexternal
    rw [hexternal] at hpairs
    exact hpairs.imp fun hpair => hpair.2

/-- An entry that ties with the only rule, at the other zero. -/
def tiedEngine : Engine where
  context := {}
  options := { externalTies := .externalWins }
  metadata := Metadata.ofTables [] []
  provider := some (.fixed [("m", [⟨some .zero, .text "entry"⟩])])

def tiedSet : RuleSet where
  rules := [{ priority := .ofMagnitude true 0, select := { modules := [some "m"] },
              apply := .fixed (.text "rule") }]

def tiedExplanation : Explanation where
  moduleId := "m"
  annotationId := none
  chain := ["m"]
  contributions :=
    [⟨.rule "m" none (.ofMagnitude true 0) 0 0 [], .text "rule"⟩,
      ⟨.external "m" 0 .zero, .text "entry"⟩]

theorem tiedExplanation_ascends :
    (tiedEngine.afterSets [tiedSet]).Explains [] { moduleId := "m" } tiedExplanation
      ∧ Ascends .externalWins tiedExplanation.contributions := by
  have h : (tiedEngine.afterSets [tiedSet]).Explains [] { moduleId := "m" }
      tiedExplanation := .inl (by cbv)
  exact ⟨h, single_module_ascends tiedEngine [tiedSet] [] { moduleId := "m" }
    tiedExplanation rfl h⟩

end Engine

end Strata
