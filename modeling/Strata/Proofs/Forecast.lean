import Strata.Proofs.Demand

/-!
# Values that are known beforehand

If every load can only come to one value, what a script comes to can be said without its
cells: follow it with the values that are forecast. A forecast holds of cells that were
reached from the initial ones by loads that came to what it says, and in such cells a run
of the script has the outcome that the forecast gives it, whatever else has been loaded.

How long a script can wait is bounded by its shape alone, because it waits once for each
answer and each value on its way, loaded or not.
-/

namespace Strata

variable {α β : Type}

/-- What loads come to: the value that each id is to have, the cells at the start, and
the ids that there is a demand for. -/
structure Forecast where
  initial : Cells
  value : String → Json
  Demanded : String → Prop

namespace Forecast

variable {forecast : Forecast} {script : Script α} {cells : Cells}

/-- The outcome of a script if every value is as forecast. -/
def outcome (forecast : Forecast) : Script α → Outcome α
  | .finish outcome => outcome
  | .pause _ rest => forecast.outcome rest
  | .load id _ next => forecast.outcome (next (forecast.value id))

def waits (forecast : Forecast) : Script α → Nat
  | .finish _ => 0
  | .pause _ rest => forecast.waits rest + 1
  | .load id _ next => forecast.waits (next (forecast.value id)) + 1

/-- A load that is demanded and comes to what is forecast, unless the value is there from
the start. -/
def Allows (forecast : Forecast) (id : String) (loader : Loader) : Prop :=
  forecast.Demanded id
    ∧ (forecast.initial.value? id = none → ∀ call, loader call = .ok (forecast.value id))

/-- Cells that are reached by loads that came to what is forecast. -/
structure Holds (forecast : Forecast) (cells : Cells) : Prop where
  kept : forecast.initial.Keeps cells
  expected : ∀ id value, cells.value? id = some value → value = forecast.value id

theorem Holds.initial_none (h : forecast.Holds cells) {id : String}
    (hnone : cells.value? id = none) : forecast.initial.value? id = none := by
  rw [Option.eq_none_iff_forall_ne_some]
  intro value hvalue
  rw [h.kept id value hvalue] at hnone
  cases hnone

theorem Holds.called (h : forecast.Holds cells) (id : String) :
    forecast.Holds (cells.called id) where
  kept := h.kept.trans (Cells.keeps_called cells id)
  expected := fun other value hvalue =>
    h.expected other value (by rwa [Cells.value?_called] at hvalue)

theorem Holds.loaded (h : forecast.Holds cells) {id : String}
    (hnone : cells.value? id = none) : forecast.Holds (cells.loaded id (forecast.value id)) where
  kept := h.kept.trans (Cells.keeps_loaded hnone _)
  expected := by
    intro other value hvalue
    by_cases hother : other = id
    · subst hother
      rw [Cells.value?_loaded_self] at hvalue
      exact (Option.some.inj hvalue).symm
    · rw [Cells.value?_loaded_of_ne hother] at hvalue
      exact h.expected other value hvalue

/-- A run in cells that a forecast holds of has the outcome that is forecast. -/
theorem Holds.run (h : forecast.Holds cells) (hscript : script.LoadsOnly forecast.Allows) :
    (script.run cells).1 = forecast.outcome script := by
  induction hscript generalizing cells with
  | finish outcome => rfl
  | pause _ ih => exact ih h
  | @load id loader next hload _ ih =>
      rw [Script.run, outcome]
      split
      · next value hvalue =>
          obtain rfl := h.expected id value hvalue
          exact ih _ h
      · next hnone =>
          dsimp only
          rw [hload.2 (h.initial_none hnone)]
          exact ih _ ((h.called id).loaded (by rw [Cells.value?_called]; exact hnone))

end Forecast

namespace Script

/-- On no way does the script wait more than so often. -/
inductive WaitsAtMost {α : Type} : Nat → Script α → Prop
  | finish {bound : Nat} (outcome : Outcome α) : WaitsAtMost bound (.finish outcome)
  | pause {bound : Nat} {refusal : Fault} {rest : Script α} (h : WaitsAtMost bound rest) :
      WaitsAtMost (bound + 1) (.pause refusal rest)
  | load {bound : Nat} {id : String} {loader : Loader} {next : Json → Script α}
      (h : ∀ value, WaitsAtMost bound (next value)) :
      WaitsAtMost (bound + 1) (.load id loader next)

section WaitsAtMost

variable {script : Script α} {bound more : Nat}

theorem WaitsAtMost.mono (h : WaitsAtMost bound script) (hmore : bound ≤ more) :
    WaitsAtMost more script := by
  induction h generalizing more with
  | finish outcome => exact .finish outcome
  | pause _ ih =>
      obtain ⟨more, rfl⟩ := Nat.exists_eq_add_of_le' (Nat.le_trans (Nat.succ_pos _) hmore)
      exact .pause (ih (Nat.le_of_succ_le_succ hmore))
  | load _ ih =>
      obtain ⟨more, rfl⟩ := Nat.exists_eq_add_of_le' (Nat.le_trans (Nat.succ_pos _) hmore)
      exact .load fun value => ih value (Nat.le_of_succ_le_succ hmore)

theorem WaitsAtMost.bind {next : α → Script β} (h : WaitsAtMost bound script)
    (hnext : ∀ value, WaitsAtMost more (next value)) :
    WaitsAtMost (bound + more) (script >>= next) := by
  induction h with
  | @finish bound outcome =>
      cases outcome with
      | ok value => exact (hnext value).mono (Nat.le_add_left _ _)
      | error fault => exact .finish _
  | pause _ ih =>
      rw [Nat.add_right_comm]
      exact .pause ih
  | load _ ih =>
      rw [Nat.add_right_comm]
      exact .load ih

theorem WaitsAtMost.bind_finish (h : WaitsAtMost bound script) (next : α → Outcome β) :
    WaitsAtMost bound (script >>= fun value => .finish (next value)) :=
  h.bind fun value => @WaitsAtMost.finish β 0 (next value)

theorem WaitsAtMost.ofOutcome_bind {outcome : Outcome α} {next : α → Script β}
    (h : ∀ value, outcome = .ok value → WaitsAtMost bound (next value)) :
    WaitsAtMost bound (ofOutcome outcome >>= next) := by
  cases outcome with
  | error fault => exact .finish _
  | ok value => exact h value rfl

theorem WaitsAtMost.waits_le (h : WaitsAtMost bound script) (forecast : Forecast) :
    forecast.waits script ≤ bound := by
  induction h with
  | finish outcome => exact Nat.zero_le _
  | pause _ ih => exact Nat.succ_le_succ ih
  | load _ ih => exact Nat.succ_le_succ (ih _)

end WaitsAtMost

end Script

end Strata
