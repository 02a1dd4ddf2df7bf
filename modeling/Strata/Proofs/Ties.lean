import Mathlib
import Strata.Proofs.Registration

/-!
# Ties between rules

The list of a module ascends by precedence, and two rules of it are never of the same
precedence; so which of two stands behind the other is told by comparing them, whatever the
order in which they were registered. If their priorities are equal, the specificities decide,
and then the ordinals, which are the indexes of the rules in the order of registration.

The comparison takes priorities by their patterns, though, and zero has two. A rule at -0.0
stands in front of every rule at 0.0, be it the more specific one or the later one. That is
the only case: any other number has one pattern.
-/

namespace Strata

theorem lt_iff_of_pairwise {α : Type} {R : α → α → Prop} (hasymm : ∀ x y, R x y → ¬ R y x)
    {items : List α} (h : items.Pairwise R) {i j : Nat} {x y : α} (hx : items[i]? = some x)
    (hy : items[j]? = some y) : i < j ↔ R x y := by
  obtain ⟨hi, rfl⟩ := List.getElem?_eq_some_iff.mp hx
  obtain ⟨hj, rfl⟩ := List.getElem?_eq_some_iff.mp hy
  have hordered := List.pairwise_iff_getElem.mp h
  constructor
  · intro hlt
    exact hordered i j hi hj hlt
  · intro hbefore
    rcases Nat.lt_trichotomy i j with hlt | rfl | hgt
    · exact hlt
    · exact absurd hbefore (hasymm _ _ hbefore)
    · exact absurd hbefore (hasymm _ _ (hordered j i hj hi hgt))

namespace Registered

/-- Less specific than another rule, or as specific and registered earlier. -/
def RanksBelow (x y : Registered) : Prop :=
  x.rule.criteria.specificity < y.rule.criteria.specificity
    ∨ x.rule.criteria.specificity = y.rule.criteria.specificity ∧ x.ordinal < y.ordinal

variable {x y : Registered}

theorem before_iff_ranksBelow (h : x.rule.priority = y.rule.priority) :
    Before x y ↔ RanksBelow x y := by
  rw [before_iff, h, RanksBelow]
  omega

theorem before_of_zeros (hx : x.rule.priority = .negZero) (hy : y.rule.priority = .zero) :
    Before x y := by
  have hlt : Binary64.negZero.totalKey < Binary64.zero.totalKey := by decide +kernel
  rw [before_iff, hx, hy]
  exact .inl hlt

end Registered

theorem RuleStore.Holds.lt_iff_before {store : RuleStore} {rules : List Rule}
    (h : store.Holds rules) {id : String} {i j : Nat} {x y : Registered}
    (hx : (store.rulesFor id)[i]? = some x) (hy : (store.rulesFor id)[j]? = some y) :
    i < j ↔ x.Before y :=
  lt_iff_of_pairwise (fun _ _ => Precedence.lt_asymm) (h.ascending id) hx hy

/-- Whatever sets have been registered, of two rules of a module whose priorities are
numerically equal the more specific one stands behind the other, and if they are as
specific the one registered later; unless the priorities are the two zeros, where the rule
at -0.0 stands in front. -/
theorem Engine.equal_priorities_ranked (engine : Engine) (sets : List RuleSet) (id : String)
    (i j : Nat) (x y : Registered)
    (hx : ((engine.afterSets sets).store.rulesFor id)[i]? = some x)
    (hy : ((engine.afterSets sets).store.rulesFor id)[j]? = some y)
    (hequal : x.rule.priority.NumericallyEqual y.rule.priority) :
    (engine.accepted sets)[x.ordinal]? = some x.rule
      ∧ (engine.accepted sets)[y.ordinal]? = some y.rule
      ∧ (¬ x.rule.priority.OppositeZeros y.rule.priority →
        x.rule.priority = y.rule.priority ∧ (i < j ↔ x.RanksBelow y))
      ∧ (x.rule.priority = .negZero → y.rule.priority = .zero → i < j) := by
  have h := holds_afterSets engine sets
  have hbefore := h.lt_iff_before hx hy
  refine ⟨(h.mem_rulesFor_iff.mp (List.mem_of_getElem? hx)).1,
    (h.mem_rulesFor_iff.mp (List.mem_of_getElem? hy)).1, fun hzeros => ?_, fun hneg hzero => ?_⟩
  · have hsame := hequal.eq_or_oppositeZeros.resolve_right hzeros
    exact ⟨hsame, hbefore.trans (Registered.before_iff_ranksBelow hsame)⟩
  · exact hbefore.mpr (Registered.before_of_zeros hneg hzero)

namespace Engine

def zerosEngine : Engine where
  context := {}
  metadata := Metadata.ofTables [] []

/-- A rule at -0.0 for a user, and two rules at 0.0, the more specific one first. -/
def zerosSet : RuleSet where
  rules :=
    [{ priority := .negZero, apply := .fixed (.text "user"),
       select := { modules := [some "page"], dimensions := { user := some ⟨["ann"]⟩ } } },
      { priority := .zero, apply := .fixed (.text "theme"),
        select := { modules := [some "page"], dimensions := { theme := some ⟨["dark"]⟩ } } },
      { priority := .zero, apply := .fixed (.text "plain"),
        select := { modules := [some "page"] } }]

def zeroRule (priority : Binary64) (dimensions : Dimensions) (text : String) : Rule :=
  ⟨⟨["page"], dimensions, none⟩, [], .fixed (.text text), none, priority⟩

def userRule : Registered :=
  ⟨zeroRule .negZero { user := some ⟨["ann"]⟩ } "user", 0⟩

def themeRule : Registered :=
  ⟨zeroRule .zero { theme := some ⟨["dark"]⟩ } "theme", 1⟩

def plainRule : Registered :=
  ⟨zeroRule .zero {} "plain", 2⟩

theorem rulesFor_zerosSet :
    (zerosEngine.afterSets [zerosSet]).store.rulesFor "page"
      = [userRule, plainRule, themeRule] := by
  have hrules : zerosEngine.normalized zerosSet
      = .ok [userRule.rule, themeRule.rule, plainRule.rule] := rfl
  rw [afterSets_singleton hrules]
  cbv

theorem themeRule_behind :
    let listed := (zerosEngine.afterSets [zerosSet]).store.rulesFor "page"
    listed[1]? = some plainRule ∧ listed[2]? = some themeRule
      ∧ plainRule.rule.priority.NumericallyEqual themeRule.rule.priority
      ∧ ¬ plainRule.rule.priority.OppositeZeros themeRule.rule.priority
      ∧ plainRule.RanksBelow themeRule := by
  intro listed
  have hplain : listed[1]? = some plainRule := congrArg (·[1]?) rulesFor_zerosSet
  have htheme : listed[2]? = some themeRule := congrArg (·[2]?) rulesFor_zerosSet
  have hequal : plainRule.rule.priority.NumericallyEqual themeRule.rule.priority := by
    decide +kernel
  have hzeros : ¬ plainRule.rule.priority.OppositeZeros themeRule.rule.priority := by
    decide +kernel
  have hranks := (equal_priorities_ranked zerosEngine [zerosSet] "page" 1 2 plainRule themeRule
    hplain htheme hequal).2.2.1 hzeros
  exact ⟨hplain, htheme, hequal, hzeros, hranks.2.mp (by decide)⟩

/-- The more specific of two rules at zero may stand in front. -/
theorem userRule_in_front :
    let listed := (zerosEngine.afterSets [zerosSet]).store.rulesFor "page"
    ¬ ∀ (i j : Nat) (x y : Registered), listed[i]? = some x → listed[j]? = some y →
      x.rule.priority.NumericallyEqual y.rule.priority → x.RanksBelow y → i < j := by
  intro listed h
  have huser : listed[0]? = some userRule := congrArg (·[0]?) rulesFor_zerosSet
  have hplain : listed[1]? = some plainRule := congrArg (·[1]?) rulesFor_zerosSet
  have hranks : plainRule.RanksBelow userRule := .inl (by decide)
  have hlt : 1 < 0 := h 1 0 plainRule userRule hplain huser (by decide +kernel) hranks
  omega

end Engine

end Strata
