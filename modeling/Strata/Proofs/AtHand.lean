import Strata.Engine
import Strata.Proofs.Waiting

/-!
# Answering from what is at hand

The way that never waits is written for itself: it looks values up instead of loading
them, asks the provider for what it has ready, and collects what the steps contribute in
one go. It is the answer of the script. Each part of it is the answer of the part of the
script that it stands beside, from the look-up of one value up to the configuration, and
`answer_bind` puts the parts together in the order in which either takes them.
-/

namespace Strata

open Script (answer_bind answer_ofOutcome)

section Sources

variable {sources : Sources} {cells : Cells}

theorem Sources.answer_lookup (id : String) :
    (sources.lookup id).answer cells = sources.lookupReady cells id := by
  unfold Sources.lookup Sources.lookupReady
  cases Fields.get? id sources with
  | none => rfl
  | some source =>
      cases source with
      | ready value => rfl
      | onDemand loader =>
          show (Script.load id loader pure).answer cells = _
          rw [Script.answer]
          cases cells.value? id <;> rfl

theorem Sources.answer_resolve (contextId : Option String) (references : List String) :
    (sources.resolve contextId references).answer cells
      = sources.resolveReady cells contextId references := by
  induction references with
  | nil => rfl
  | cons reference rest ih =>
      rw [Sources.resolve, Sources.resolveReady, List.mapM_cons, ← Sources.resolveReady, ← ih]
      simp only [answer_bind, answer_ofOutcome, Sources.answer_lookup, bind_assoc]
      rfl

end Sources

theorem Provider.answer_entries (provider : Provider) (moduleId : String) (cells : Cells) :
    (provider.entries moduleId).answer cells = provider.entriesReady moduleId := by
  cases provider <;> rfl

namespace Engine

variable {engine : Engine} {cells : Cells}

theorem answer_externalEntries (plan : Plan) :
    (engine.externalEntries plan).answer cells = engine.externalEntriesReady plan := by
  unfold externalEntries externalEntriesReady
  split
  · next provider _ _ =>
      rw [answer_bind, Provider.answer_entries]
      rfl
  · rfl

theorem answer_contribution (moduleId : String) (step : (String × Registered) ⊕ (Entry × Nat)) :
    (engine.contribution moduleId step).answer cells
      = engine.contributionReady cells moduleId step := by
  rcases step with ⟨id, registered⟩ | ⟨entry, index⟩
  · rw [contribution, contributionReady, answer_bind, Sources.answer_resolve]
    rfl
  · rfl

theorem answer_contributions (moduleId : String)
    (steps : List ((String × Registered) ⊕ (Entry × Nat))) :
    (engine.contributions moduleId steps).answer cells
      = steps.mapM (engine.contributionReady cells moduleId) := by
  induction steps with
  | nil => rfl
  | cons step rest ih =>
      rw [contributions, List.mapM_cons, ← ih]
      simp only [answer_bind, answer_contribution]
      rfl

theorem answer_explanation (query : Query) :
    (engine.explanation query).answer cells = engine.explain cells query := by
  unfold explanation explain
  simp only [answer_bind, answer_ofOutcome, answer_externalEntries, answer_contributions]
  rfl

theorem answer_selection (query : Query) :
    (engine.selection query).answer cells = engine.select cells query := by
  unfold selection select
  simp only [answer_bind, answer_ofOutcome, answer_explanation]

end Engine

end Strata
