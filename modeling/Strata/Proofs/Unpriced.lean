import Strata.Proofs.Account

/-!
# Entries without a priority

An entry without a priority is placed as if it had minus infinity, which no rule is below.
If rules win ties, only a rule that is below holds an entry back, so nothing does, and the
entry precedes every rule. If entries win ties, a rule holds it back that has minus
infinity itself, and no other: the entry stands right behind the last such rule, whatever
stands before that in the chain.

So the lowest place is not below every rule. It is shared by the rules that are registered
at minus infinity, and who comes first there is decided like any other tie.
-/

namespace Strata

/-- The origins that are rules, in their order. -/
def ruleOrigins (origins : List Origin) : List Origin :=
  origins.filter fun origin => !origin.isExternal

theorem ruleOrigins_around (front back : List Origin) (moduleId : String) (index : Nat)
    (priority : Binary64) :
    ruleOrigins (front ++ .external moduleId index priority :: back)
      = ruleOrigins front ++ ruleOrigins back :=
  List.filter_append front _

/-- What stands in front of an entry at the lowest place and behind it: no rule in front if
rules win ties; and if entries do, all rules up to the last at minus infinity. -/
structure Lowest (ties : TieBreak) (front back : List Origin) : Prop where
  internalWins : ties = .internalWins → ruleOrigins front = []
  externalWins : ties = .externalWins →
    (∀ rule, (ruleOrigins front).getLast? = some rule → rule.priority = .negInfinity)
      ∧ ∀ rule ∈ ruleOrigins back, rule.priority ≠ .negInfinity

/-- At the lowest place an entry precedes every rule if rules win ties, and otherwise if no
rule is at minus infinity. -/
theorem Lowest.precedes_iff {ties : TieBreak} {front back : List Origin}
    (h : Lowest ties front back) :
    ruleOrigins front = [] ↔ ties = .internalWins
      ∨ ∀ rule ∈ ruleOrigins front ++ ruleOrigins back, rule.priority ≠ .negInfinity := by
  constructor
  · intro hnone
    cases ties with
    | internalWins => exact .inl rfl
    | externalWins =>
        rw [hnone]
        exact .inr (h.externalWins rfl).2
  · rintro (hties | hfree)
    · exact h.internalWins hties
    · cases ties with
      | internalWins => exact h.internalWins rfl
      | externalWins =>
          refine List.getLast?_eq_none_iff.mp (Option.eq_none_iff_forall_ne_some.mpr ?_)
          intro rule hlast
          exact hfree rule (List.mem_append_left _ (List.mem_of_getLast? hlast))
            ((h.externalWins rfl).1 rule hlast)

namespace Engine

open Placement

/-! ## The steps around an entry -/

theorem ruleOrigins_steps (moduleId : String) (steps : List Step) :
    ruleOrigins (steps.map (originOf moduleId))
      = (rulesOf steps).map fun found => originOf moduleId (.inl found) := by
  rw [ruleOrigins, ← List.filterMap_eq_filter, filterMap_originOf (fun _ _ _ => rfl),
    ← List.filterMap_eq_map']
  rfl

section Lowest

variable {ties : TieBreak} {rules : List (String × Registered)} {entries : List Entry}
  {steps front back : List Step} {indexed : Entry × Nat}

/-- No entry of an index stands there twice. -/
theorem Interleaved.notMem_around (h : Interleaved ties rules entries steps)
    (hsplit : steps = front ++ .inr indexed :: back) :
    ∀ other ∈ entriesOf front ++ entriesOf back, other.2 ≠ indexed.2 := by
  have hindexes : ((entriesOf steps).map Prod.snd).Nodup := by
    refine (h.eachOnce.map Prod.snd).nodup_iff.mpr ?_
    rw [List.zipIdx_map_snd]
    exact List.nodup_range'
  rw [hsplit, entriesOf_append, entriesOf_inr, List.map_append, List.map_cons] at hindexes
  intro other hmem hsame
  have hout := (List.nodup_middle.mp hindexes).notMem
  rw [← List.map_append] at hout
  exact hout (hsame ▸ List.mem_map_of_mem hmem)

/-- An entry at minus infinity has the lowest place. -/
theorem Interleaved.lowest (h : Interleaved ties rules entries steps)
    (hsplit : steps = front ++ .inr indexed :: back)
    (hlow : indexed.1.effectivePriority = .negInfinity) (moduleId : String) :
    Lowest ties (front.map (originOf moduleId)) (back.map (originOf moduleId)) := by
  have hentry : indexed ∈ entries.zipIdx := by
    refine h.mem_zipIdx ?_
    rw [hsplit]
    exact List.mem_append_right _ List.mem_cons_self
  -- A rule in front has the entry behind it.
  have hbehind : ∀ before rule between, front = before ++ .inl rule :: between →
      steps = before ++ .inl rule :: (between ++ .inr indexed :: back)
        ∧ .inr indexed ∉ before := by
    rintro before rule between rfl
    have hsteps : steps = before ++ .inl rule :: (between ++ .inr indexed :: back) := by
      rw [hsplit, List.append_assoc, List.cons_append]
    refine ⟨hsteps, h.not_mem_before hsteps ?_⟩
    rw [entriesOf_append, entriesOf_inr]
    exact List.mem_append_right _ List.mem_cons_self
  have hfree : ties = .externalWins → ∀ rule ∈ rulesOf back,
      rule.2.rule.priority ≠ .negInfinity := by
    intro hties rule hrule hsame
    obtain ⟨between, behind, rfl⟩ := List.append_of_mem (mem_rulesOf.mp hrule)
    have hsteps : steps = (front ++ .inr indexed :: between) ++ .inl rule :: behind := by
      rw [hsplit, List.append_assoc, List.cons_append]
    refine (h.externalWins hties _ rule behind hsteps indexed hentry).mp
      (List.mem_append_right _ List.mem_cons_self) rule List.mem_cons_self ?_
    rw [hlow, hsame]
    exact Binary64.numericLe_negInfinity_iff.mpr rfl
  refine ⟨fun hties => ?_, fun hties => ⟨fun origin hlast => ?_, ?_⟩⟩
  · rw [ruleOrigins_steps, List.map_eq_nil_iff, List.eq_nil_iff_forall_not_mem]
    intro rule hrule
    obtain ⟨before, between, hfront⟩ := List.append_of_mem (mem_rulesOf.mp hrule)
    obtain ⟨hsteps, hout⟩ := hbehind before rule between hfront
    refine hout ((h.internalWins hties before rule _ hsteps indexed hentry).mpr ?_)
    intro other _
    rw [hlow]
    exact Binary64.not_numericLt_negInfinity
  · rw [ruleOrigins_steps, List.getLast?_map] at hlast
    obtain ⟨rule, hrule, rfl⟩ := Option.map_eq_some_iff.mp hlast
    obtain ⟨before, between, hfront, hbetween⟩ := exists_last_rule hrule
    obtain ⟨hsteps, hout⟩ := hbehind before rule between hfront
    refine Decidable.byContradiction fun hhigher => hout ?_
    refine (h.externalWins hties before rule _ hsteps indexed hentry).mpr ?_
    intro other hother
    rw [hlow, Binary64.numericLe_negInfinity_iff]
    rw [rulesOf_append, rulesOf_inr, hbetween, List.nil_append] at hother
    rcases List.mem_cons.mp hother with rfl | hback
    · exact hhigher
    · exact hfree hties other hback
  · rw [ruleOrigins_steps, List.forall_mem_map]
    exact hfree hties

end Lowest

end Engine

/-- Whatever sets have been registered and whatever the provider answers, each entry without
a priority contributes once to an explanation, at the lowest place. It precedes every rule
exactly if rules win ties or no rule that contributes is at minus infinity. -/
theorem Engine.unpriced_lowest (engine : Engine) (sets : List RuleSet) (cells : Cells)
    (query : Query) (explanation : Explanation)
    (h : (engine.afterSets sets).Explains cells query explanation) :
    let ties := engine.options.externalTies
    let origins := explanation.contributions.map Contribution.origin
    ∃ plan entries, (engine.afterSets sets).plan query = .ok plan
      ∧ ((engine.afterSets sets).externalEntries plan).Yields entries
      ∧ ∀ (index : Nat) (entry : Entry), entries[index]? = some entry → entry.priority = none →
        let placed := Origin.external plan.moduleId index .negInfinity
        ∃ front back, origins = front ++ placed :: back ∧ placed ∉ front ++ back
          ∧ Lowest ties front back
          ∧ (ruleOrigins front = [] ↔ ties = .internalWins
            ∨ ∀ rule ∈ ruleOrigins origins, rule.priority ≠ .negInfinity) := by
  intro ties origins
  obtain ⟨later, hlater⟩ := h.exists_later
  obtain ⟨plan, entries, steps, haccount⟩ := hlater.exists_account
  refine ⟨plan, entries, haccount.planned, haccount.supplied, fun index entry hentry hnone => ?_⟩
  intro placed
  have hsequence := interleaved_of_steps haccount.placed
  have hties : (engine.afterSets sets).options = engine.options := by rw [afterSets_eq]
  rw [hties] at hsequence
  have hlow : entry.effectivePriority = .negInfinity := by
    rw [Entry.effectivePriority, hnone]
    rfl
  have hindexed : (entry, index) ∈ entries.zipIdx := List.mem_zipIdx_iff_getElem?.mpr hentry
  obtain ⟨front, back, hsplit⟩ := List.append_of_mem
    (Placement.mem_entriesOf.mp (hsequence.eachOnce.mem_iff.mpr hindexed))
  have horigins : origins = front.map (originOf plan.moduleId)
      ++ placed :: back.map (originOf plan.moduleId) := by
    refine haccount.origins.trans ?_
    rw [hsplit, List.map_append, List.map_cons, originOf, hlow]
  have hlowest := hsequence.lowest hsplit hlow plan.moduleId
  refine ⟨_, _, horigins, ?_, hlowest, ?_⟩
  · rw [← List.map_append]
    intro hmem
    obtain ⟨step, hstep, hsame⟩ := List.mem_map.mp hmem
    rcases step with found | ⟨other, position⟩
    · exact Origin.noConfusion hsame
    · have hother := Placement.mem_entriesOf.mpr hstep
      rw [Placement.entriesOf_append] at hother
      exact hsequence.notMem_around hsplit _ hother (Origin.external.inj hsame).2.1
  · rw [hlowest.precedes_iff, horigins, ruleOrigins_around]

namespace Engine

/-- An entry without a priority. -/
def floorEngine (ties : TieBreak) : Engine where
  context := {}
  options := { externalTies := ties }
  metadata := Metadata.ofTables [] []
  provider := some (.fixed [("m", [⟨none, .text "entry"⟩])])

/-- Two rules, the first of which is at minus infinity. -/
def floorSet : RuleSet where
  rules := [{ priority := .negInfinity, select := { modules := [some "m"] },
              apply := .fixed (.text "floor") },
    { select := { modules := [some "m"] }, apply := .fixed (.text "rule") }]

def floorEntry : Contribution :=
  ⟨.external "m" 0 .negInfinity, .text "entry"⟩

def floorRule : Contribution :=
  ⟨.rule "m" none .negInfinity 0 0 [], .text "floor"⟩

def upperRule : Contribution :=
  ⟨.rule "m" none .zero 0 1 [], .text "rule"⟩

theorem floorEntry_precedes :
    let explanation : Explanation := ⟨"m", none, ["m"], [floorEntry, floorRule, upperRule]⟩
    ((floorEngine .internalWins).afterSets [floorSet]).Explains [] { moduleId := "m" } explanation
      ∧ ∃ front back, explanation.contributions.map Contribution.origin
          = front ++ floorEntry.origin :: back
        ∧ floorEntry.origin ∉ front ++ back ∧ ruleOrigins front = [] := by
  intro explanation
  have h : ((floorEngine .internalWins).afterSets [floorSet]).Explains []
      { moduleId := "m" } explanation := .inl (by cbv)
  refine ⟨h, ?_⟩
  obtain ⟨plan, entries, hplan, hentries, hplaced⟩ :=
    unpriced_lowest (floorEngine .internalWins) [floorSet] [] { moduleId := "m" } explanation h
  obtain ⟨hmodule, hannotation, -⟩ := of_plan_eq_ok hplan
  have hmodule : "m" = plan.moduleId := Except.ok.inj hmodule
  have hannotation : none = plan.annotationId := Except.ok.inj hannotation
  rw [externalEntries, ← hannotation, ← hmodule] at hentries
  have hentry : entries = [⟨none, .text "entry"⟩] := Script.yields_pure.mp hentries
  obtain ⟨front, back, horigins, honce, hlowest, -⟩ := hplaced 0 _ (by rw [hentry]; rfl) rfl
  rw [← hmodule] at horigins honce
  exact ⟨front, back, horigins, honce, hlowest.internalWins rfl⟩

/-- If entries win ties, an entry without a priority stands behind a rule at minus
infinity, and so it does not precede every rule. -/
theorem floorEntry_overrides :
    let explanation : Explanation := ⟨"m", none, ["m"], [floorRule, floorEntry, upperRule]⟩
    (floorEngine .externalWins).provider = some (.fixed [("m", [⟨none, .text "entry"⟩])])
      ∧ floorRule.origin.isExternal = false
      ∧ ((floorEngine .externalWins).afterSets [floorSet]).explain [] { moduleId := "m" }
        = .ok explanation
      ∧ ¬ ∀ front back, explanation.contributions.map Contribution.origin
          = front ++ floorEntry.origin :: back → ruleOrigins front = [] := by
  intro explanation
  refine ⟨rfl, rfl, by cbv, fun hprecedes => ?_⟩
  have hnone : ruleOrigins [floorRule.origin] = [] :=
    hprecedes [floorRule.origin] [upperRule.origin] rfl
  cases hnone

end Engine

end Strata
