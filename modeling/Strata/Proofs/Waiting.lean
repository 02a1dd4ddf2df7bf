import Strata.Script

/-!
# Waiting or not

A script is answered from what is loaded, or run with all waiting done. Both go along
it in the same way as long as nothing has to be waited for, so an answer that is given at
once is also the outcome of a run, and a run that could have been answered loads nothing.

A run only ever adds to what is loaded: a load that fails leaves its cell without a value,
and one that succeeds is not made where there is a value already. So whatever a run has
met on its way is there when it is done, and stays there: from then on the script is
answered at once, with the same value, and this needs no more of the later cells than that
they keep what was loaded.

A pause is waited for anew each time. Scripts without one are `Prompt`.
-/

namespace Strata

variable {α β : Type}

namespace Cells

variable {cells later : Cells}

theorem value?_called (cells : Cells) (id other : String) :
    (cells.called id).value? other = cells.value? other := by
  unfold value? cell called
  by_cases hother : other = id
  · subst hother
    rw [Fields.get?_put_self]
    rfl
  · rw [Fields.get?_put_of_ne hother]

theorem value?_loaded_self (cells : Cells) (id : String) (value : Json) :
    (cells.loaded id value).value? id = some value := by
  unfold value? cell loaded
  rw [Fields.get?_put_self]
  rfl

theorem value?_loaded_of_ne {id other : String} (hother : other ≠ id) (cells : Cells)
    (value : Json) : (cells.loaded id value).value? other = cells.value? other := by
  unfold value? cell loaded
  rw [Fields.get?_put_of_ne hother]

/-- Whatever is loaded stays loaded, with its value. -/
def Keeps (cells later : Cells) : Prop :=
  ∀ id value, cells.value? id = some value → later.value? id = some value

theorem Keeps.refl (cells : Cells) : Keeps cells cells :=
  fun _ _ h => h

theorem Keeps.trans {latest : Cells} (h : Keeps cells later) (hlatest : Keeps later latest) :
    Keeps cells latest :=
  fun id value hvalue => hlatest id value (h id value hvalue)

theorem keeps_called (cells : Cells) (id : String) : Keeps cells (cells.called id) :=
  fun other _ hvalue => by rw [value?_called]; exact hvalue

theorem keeps_loaded {id : String} (hnew : cells.value? id = none) (value : Json) :
    Keeps cells (cells.loaded id value) := by
  intro other held hheld
  have hother : other ≠ id := by
    rintro rfl
    rw [hnew] at hheld
    cases hheld
  rw [value?_loaded_of_ne hother]
  exact hheld

end Cells

namespace Script

open Cells (Keeps)

/-! ## One script after another -/

instance : LawfulMonad Script := by
  refine LawfulMonad.mk' Script (fun script => ?_) (fun value next => rfl)
    fun script next last => ?_
  · induction script with
    | finish outcome => cases outcome <;> rfl
    | pause refusal rest ih => exact congrArg (Script.pause refusal) ih
    | load id loader next ih => exact congrArg (Script.load id loader) (funext ih)
  · induction script with
    | finish outcome => cases outcome <;> rfl
    | pause refusal rest ih => exact congrArg (Script.pause refusal) ih
    | load id loader rest ih => exact congrArg (Script.load id loader) (funext ih)

section Bind

variable {cells : Cells}

theorem answer_ofOutcome (outcome : Outcome α) : (ofOutcome outcome).answer cells = outcome :=
  rfl

theorem answer_bind (script : Script α) (next : α → Script β) :
    (script >>= next).answer cells
      = script.answer cells >>= fun value => (next value).answer cells := by
  induction script with
  | finish outcome => cases outcome <;> rfl
  | pause refusal rest ih => rfl
  | load id loader rest ih =>
      show (Script.load id loader fun value => (rest value).bind next).answer cells = _
      rw [answer, answer]
      split
      · next value _ => exact ih value
      · rfl

/-- A run of two scripts runs the second on the cells that the first has left. -/
theorem run_bind (script : Script α) (next : α → Script β) (cells : Cells) :
    (script >>= next).run cells =
      match script.run cells with
      | (.ok value, later) => (next value).run later
      | (.error fault, later) => (.error fault, later) := by
  induction script generalizing cells with
  | finish outcome => cases outcome <;> rfl
  | pause refusal rest ih => exact ih cells
  | load id loader rest ih =>
      show (Script.load id loader fun value => (rest value).bind next).run cells = _
      rw [run, run]
      split
      · next value _ => exact ih value cells
      · dsimp only
        split
        · next value _ => exact ih value _
        · rfl

theorem answer_map (f : α → β) (script : Script α) :
    (f <$> script).answer cells = f <$> script.answer cells := by
  rw [map_eq_pure_bind, answer_bind]
  cases script.answer cells <;> rfl

theorem run_map (f : α → β) (script : Script α) (cells : Cells) :
    (f <$> script).run cells = Prod.map (f <$> ·) id (script.run cells) := by
  rw [map_eq_pure_bind, run_bind]
  rcases script.run cells with ⟨outcome, later⟩
  cases outcome <;> rfl

end Bind

/-! ## Answers and runs -/

/-- A run keeps what was loaded before it. -/
theorem keeps_run (script : Script α) (cells : Cells) : Keeps cells (script.run cells).2 := by
  induction script generalizing cells with
  | finish outcome => exact .refl cells
  | pause refusal rest ih => exact ih cells
  | load id loader next ih =>
      rw [run]
      split
      · next value _ => exact ih value cells
      · next hnew =>
          dsimp only
          split
          · next value _ =>
              have hcalled : (cells.called id).value? id = none := by
                rw [Cells.value?_called]
                exact hnew
              exact ((Cells.keeps_called cells id).trans (Cells.keeps_loaded hcalled value)).trans
                (ih value _)
          · exact Cells.keeps_called cells id

/-- What is answered at once is what a run comes to, and the run changes nothing. -/
theorem run_of_answer {script : Script α} {cells : Cells} {value : α}
    (h : script.answer cells = .ok value) : script.run cells = (.ok value, cells) := by
  induction script with
  | finish outcome =>
      rw [answer] at h
      rw [run, h]
  | pause refusal rest ih => cases h
  | load id loader next ih =>
      rw [answer] at h
      rw [run]
      split at h
      · next loaded hloaded => exact ih loaded h
      · cases h

/-- More that is loaded changes no answer. -/
theorem answer_of_keeps {script : Script α} {cells later : Cells} {value : α}
    (hkeeps : Keeps cells later) (h : script.answer cells = .ok value) :
    script.answer later = .ok value := by
  induction script with
  | finish outcome => exact h
  | pause refusal rest ih => cases h
  | load id loader next ih =>
      rw [answer] at h ⊢
      split at h
      · next loaded hloaded =>
          rw [hkeeps id loaded hloaded]
          exact ih loaded h
      · cases h

/-- A script that never pauses. -/
inductive Prompt {α : Type} : Script α → Prop
  | finish (outcome : Outcome α) : Prompt (.finish outcome)
  | load {id : String} {loader : Loader} {next : Json → Script α}
      (h : ∀ value, Prompt (next value)) : Prompt (.load id loader next)

theorem Prompt.bind {script : Script α} {next : α → Script β} (h : Prompt script)
    (hnext : ∀ value, Prompt (next value)) : Prompt (script >>= next) := by
  induction h with
  | finish outcome =>
      cases outcome with
      | ok value => exact hnext value
      | error fault => exact .finish _
  | load _ ih => exact .load ih

section Prompt

variable {script : Script α} {cells : Cells}

/-- A prompt script that is refused for any other reason than that something is not
loaded runs into the same fault, before anything is loaded. -/
theorem Prompt.run_of_answer_error (hprompt : Prompt script) {fault : Fault}
    (h : script.answer cells = .error fault) (hfault : ∀ id, fault ≠ .dependencyNotLoaded id) :
    script.run cells = (.error fault, cells) := by
  induction hprompt with
  | finish outcome =>
      rw [answer] at h
      rw [run, h]
  | @load id loader next _ ih =>
      rw [answer] at h
      rw [run]
      split at h
      · next loaded hloaded => exact ih loaded h
      · cases h
        exact absurd rfl (hfault id)

/-- Once a prompt script has run to a value it is answered at once, with the same value,
from what the run has left. -/
theorem Prompt.answer_of_run (hprompt : Prompt script) {value : α}
    (h : (script.run cells).1 = .ok value) :
    script.answer (script.run cells).2 = .ok value := by
  induction hprompt generalizing cells with
  | finish outcome => exact h
  | @load id loader next _ ih =>
      rw [run] at h ⊢
      rw [answer]
      split at h
      · next loaded hloaded =>
          -- The run goes on from `cells`, and what it found there is still there at its end.
          rw [keeps_run (next loaded) cells id loaded hloaded]
          exact ih loaded h
      · dsimp only at h ⊢
        split at h
        · next loaded _ =>
            have hthere := Cells.value?_loaded_self (cells.called id) id loaded
            rw [keeps_run (next loaded) _ id loaded hthere]
            exact ih loaded h
        · cases h

end Prompt

end Script

end Strata
