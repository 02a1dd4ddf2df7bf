import Strata.Engine
import Strata.Proofs.Outcomes
import Strata.Proofs.Placement

/-!
# Rules and entries in one sequence

The steps of a plan are its rules, in the order of the plan, and the external entries
at their slots. `Interleaved` says all that the placement determines, for rules in any
order of priorities: an inherited chain lists the rules of each ancestor in ascending
order, but from one ancestor to the next priorities may fall. It leaves no freedom. The
entries have one order among themselves, and for each entry and each rule it is settled
which of the two comes first.
-/

namespace Strata.Engine

open Placement

/-- A step of the merge sequence: a rule under its chain id, or an entry with its
index in the provider's answer. -/
abbrev Step := (String × Registered) ⊕ (Entry × Nat)

/-- Whether an entry comes before another: by priority in the total order, then by
the order of the provider. -/
def EntryBefore (x y : Entry × Nat) : Prop :=
  (x.1.effectivePriority.compareTotal y.1.effectivePriority).then (compare x.2 y.2) = .lt

/-- How rules and external entries stand in one sequence: the rules keep their order,
every entry is there once, and an entry is in front of a rule exactly if no rule from
this one on has a lower priority or, if entries win ties, the same. So no rule behind
an entry has a lower priority. -/
structure Interleaved (ties : TieBreak) (rules : List (String × Registered))
    (entries : List Entry) (steps : List Step) : Prop where
  rulesKept : rulesOf steps = rules
  eachOnce : (entriesOf steps).Perm entries.zipIdx
  ascending : (entriesOf steps).Pairwise EntryBefore
  internalWins : ties = .internalWins → ∀ before rule behind,
    steps = before ++ .inl rule :: behind → ∀ indexed ∈ entries.zipIdx,
      (.inr indexed ∈ before ↔ ∀ other ∈ rule :: rulesOf behind,
        ¬ other.2.rule.priority.numericLt indexed.1.effectivePriority = true)
  externalWins : ties = .externalWins → ∀ before rule behind,
    steps = before ++ .inl rule :: behind → ∀ indexed ∈ entries.zipIdx,
      (.inr indexed ∈ before ↔ ∀ other ∈ rule :: rulesOf behind,
        ¬ other.2.rule.priority.numericLe indexed.1.effectivePriority = true)
  notOverridden : ∀ before rule behind, steps = before ++ .inl rule :: behind →
    ∀ indexed, .inr indexed ∈ before →
      ¬ rule.2.rule.priority.numericLt indexed.1.effectivePriority = true

section Steps

variable {engine : Engine} {plan : Plan} {entries : List Entry} {steps : List Step}

theorem checkPriorities_eq_ok {moduleId : String} {index : Nat} :
    checkPriorities moduleId index entries = .ok () ↔
      ∀ entry ∈ entries, entry.effectivePriority.isNaN = false := by
  induction entries generalizing index with
  | nil => exact ⟨fun _ => List.forall_mem_nil _, fun _ => rfl⟩
  | cons entry rest ih =>
      rw [checkPriorities, List.forall_mem_cons]
      cases hnan : entry.effectivePriority.isNaN with
      | true =>
          rw [if_pos rfl]
          constructor
          · intro h
            cases h
          · intro h
            cases h.1
      | false =>
          rw [if_neg Bool.false_ne_true, ih]
          exact ⟨fun h => ⟨rfl, h⟩, fun h => h.2⟩

theorem steps_eq_ok :
    engine.steps plan entries = .ok steps ↔
      (∀ entry ∈ entries, entry.effectivePriority.isNaN = false)
        ∧ steps = interleave engine.options.externalTies
          (fun found => found.2.rule.priority) (fun indexed => indexed.1.effectivePriority)
          plan.rules entries.zipIdx := by
  rw [← @checkPriorities_eq_ok entries plan.moduleId 0, Engine.steps, Outcome.bind_eq_ok]
  constructor
  · rintro ⟨_, hcheck, h⟩
    cases h
    exact ⟨hcheck, rfl⟩
  · rintro ⟨hcheck, rfl⟩
    exact ⟨(), hcheck, rfl⟩

theorem mem_rules_of_steps (h : engine.steps plan entries = .ok steps)
    {found : String × Registered} (hmem : .inl found ∈ steps) : found ∈ plan.rules := by
  obtain ⟨-, rfl⟩ := steps_eq_ok.mp h
  have hrule := mem_rulesOf.mpr hmem
  rw [rulesOf_interleave] at hrule
  exact hrule

theorem pairwise_snd_zipIdx (entries : List Entry) :
    entries.zipIdx.Pairwise fun x y => x.2 < y.2 := by
  rw [← @List.pairwise_map _ _ Prod.snd, List.zipIdx_map_snd]
  exact List.pairwise_lt_range'

/-- What the placement of entries determines of every sequence that it makes. -/
theorem interleaved_of_steps (h : engine.steps plan entries = .ok steps) :
    Interleaved engine.options.externalTies plan.rules entries steps := by
  obtain ⟨hnumbers, rfl⟩ := steps_eq_ok.mp h
  have hindexed : ∀ indexed ∈ entries.zipIdx, indexed.1.effectivePriority.isNaN = false :=
    fun indexed hmem => hnumbers _ (List.fst_mem_of_mem_zipIdx hmem)
  refine ⟨rulesOf_interleave, entriesOf_interleave_perm, ?_, ?_, ?_, ?_⟩
  · refine List.Pairwise.imp (fun hless => ?_)
      (pairwise_entriesOf_interleave (pairwise_snd_zipIdx entries) hindexed)
    rw [EntryBefore, Ordering.then_eq_lt, Binary64.compareTotal_eq_lt,
      Binary64.compareTotal_eq_eq, Nat.compare_eq_lt]
    exact hless
  · intro hties before rule behind hsplit indexed hmem
    rw [← mem_entriesOf, mem_entriesOf_before_iff hsplit hmem, hties]
    simp only [holdsBack, Bool.not_eq_true]
  · intro hties before rule behind hsplit indexed hmem
    rw [← mem_entriesOf, mem_entriesOf_before_iff hsplit hmem, hties]
    simp only [holdsBack, Bool.not_eq_true]
  · intro before rule behind hsplit indexed hmem hlower
    have hemitted : indexed ∈ entriesOf (before ++ .inl rule :: behind) :=
      mem_entriesOf.mpr (List.mem_append_left _ hmem)
    rw [← hsplit] at hemitted
    have hentry := entriesOf_interleave_perm.mem_iff.mp hemitted
    have hfree := (mem_entriesOf_before_iff hsplit hentry).mp (mem_entriesOf.mpr hmem)
      rule List.mem_cons_self
    rw [holdsBack_of_numericLt hlower] at hfree
    cases hfree

end Steps

/-- Entries whose priorities are numbers are placed among any rules of a plan. -/
theorem steps_interleaved (engine : Engine) (plan : Plan) (entries : List Entry)
    (h : ∀ entry ∈ entries, entry.effectivePriority.isNaN = false) :
    ∃ steps, engine.steps plan entries = .ok steps
      ∧ Interleaved engine.options.externalTies plan.rules entries steps := by
  obtain ⟨steps, hsteps⟩ : ∃ steps, engine.steps plan entries = .ok steps :=
    ⟨_, steps_eq_ok.mpr ⟨h, rfl⟩⟩
  exact ⟨steps, hsteps, interleaved_of_steps hsteps⟩

/-- A plan whose first rule, found at an ancestor, has the higher priority. -/
def crossedPlan : Plan :=
  let rule (priority : Binary64) (id : String) : Rule :=
    { criteria := ⟨[id], {}, none⟩, deps := [], apply := .fixed .empty, contextId := none,
      priority }
  { moduleId := "leaf", annotationId := none, chain := ["root", "leaf"]
    rules := [("root", ⟨rule .infinity "root", 0⟩), ("leaf", ⟨rule .negInfinity "leaf", 1⟩)] }

theorem crossedPlan_interleaved :
    let engine : Engine := { context := {}, metadata := Metadata.ofTables [] [] }
    let entries : List Entry := [⟨some .zero, .null⟩, ⟨none, .null⟩]
    (∀ entry ∈ entries, entry.effectivePriority.isNaN = false)
      ∧ ∃ steps, engine.steps crossedPlan entries = .ok steps
        ∧ Interleaved .internalWins crossedPlan.rules entries steps :=
  ⟨by decide, steps_interleaved _ _ _ (by decide)⟩

end Strata.Engine
