import Strata.Script

/-!
# What a script can yield

A script may be answered from what is loaded or run with all waiting done, and
with different loaders at different times it yields different values. `Yields`
forgets how it is run: it lets a wait pass and a load give any value. What holds of
every value that a script yields therefore holds of its outcome however it is run,
and `yields_bind` takes a script apart step by step without saying which way.
-/

namespace Strata.Script

variable {α β : Type}

/-- A value that a script can end with. -/
inductive Yields {α : Type} : Script α → α → Prop
  | finish (value : α) : Yields (.finish (.ok value)) value
  | pause {refusal : Fault} {rest : Script α} {value : α} (h : Yields rest value) :
      Yields (.pause refusal rest) value
  | load {id : String} {loader : Loader} {next : Json → Script α} {loaded : Json} {value : α}
      (h : Yields (next loaded) value) : Yields (.load id loader next) value

theorem yields_pure {result value : α} : Yields (pure result) value ↔ value = result := by
  constructor
  · intro h
    cases h
    rfl
  · rintro rfl
    exact .finish value

theorem yields_ofOutcome {outcome : Outcome α} {value : α} :
    Yields (ofOutcome outcome) value ↔ outcome = .ok value := by
  constructor
  · intro h
    cases h
    rfl
  · rintro rfl
    exact .finish value

/-- One step after another yields what the second yields from what the first does. -/
theorem yields_bind {script : Script α} {next : α → Script β} {result : β} :
    Yields (script >>= next) result ↔
      ∃ value, Yields script value ∧ Yields (next value) result := by
  constructor
  · intro h
    induction script with
    | finish outcome =>
        cases outcome with
        | ok value => exact ⟨value, .finish value, h⟩
        | error fault => cases h
    | pause refusal rest ih =>
        cases h with
        | pause h =>
            obtain ⟨value, hvalue, hresult⟩ := ih h
            exact ⟨value, .pause hvalue, hresult⟩
    | load id loader rest ih =>
        cases h with
        | load h =>
            obtain ⟨value, hvalue, hresult⟩ := ih _ h
            exact ⟨value, .load hvalue, hresult⟩
  · rintro ⟨value, hvalue, hresult⟩
    induction hvalue with
    | finish value => exact hresult
    | pause _ ih => exact .pause (ih hresult)
    | load _ ih => exact .load (ih hresult)

theorem yields_of_answer {cells : Cells} {script : Script α} {value : α}
    (h : script.answer cells = .ok value) : Yields script value := by
  induction script with
  | finish outcome =>
      rw [answer] at h
      subst h
      exact .finish value
  | pause refusal rest ih => cases h
  | load id loader next ih =>
      rw [answer] at h
      split at h
      · exact .load (ih _ h)
      · cases h

theorem yields_of_run {cells : Cells} {script : Script α} {value : α}
    (h : (script.run cells).1 = .ok value) : Yields script value := by
  induction script generalizing cells with
  | finish outcome =>
      rw [run] at h
      subst h
      exact .finish value
  | pause refusal rest ih => exact .pause (ih h)
  | load id loader next ih =>
      rw [run] at h
      split at h
      · exact .load (ih _ h)
      · dsimp only at h
        split at h
        · exact .load (ih _ h)
        · cases h

end Strata.Script
