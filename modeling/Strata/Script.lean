import Strata.Fault

/-!
# Scripts

A resolution may have to wait: for a value that is loaded when it is first
needed, or for a provider that answers later. A `Script` is a resolution up to
its first wait, with what follows as a function of what it waits for. It says
what is waited for and not how; the ways to run it are separate:

* `answer` never waits, and refuses where it would have to;
* `run` waits and loads, one script alone;
* the schedule of many scripts at once is a module of its own.

A value is loaded at most once. What is loaded, and how often each loader has
been called, is in the `Cells`.
-/

namespace Strata

/-- How a value is loaded: the outcome of the first call, the second call and so on. -/
abbrev Loader := Nat → Outcome Json

/-- What is known of a value that is loaded on demand. -/
structure Cell where
  /-- How often its loader has been called. -/
  calls : Nat := 0
  /-- The value, once a call has succeeded. -/
  value : Option Json := none
  deriving Inhabited

/-- The cells of all values that are loaded on demand. -/
abbrev Cells := Fields Cell

namespace Cells

/-- The cell of a value; one that is not there yet is fresh. -/
def cell (cells : Cells) (id : String) : Cell :=
  (Fields.get? id cells).getD {}

/-- The value, if it is loaded. -/
def value? (cells : Cells) (id : String) : Option Json :=
  (cells.cell id).value

/-- Count a call of the loader. -/
def called (cells : Cells) (id : String) : Cells :=
  Fields.put id { cells.cell id with calls := (cells.cell id).calls + 1 } cells

/-- Keep a loaded value. -/
def loaded (cells : Cells) (id : String) (value : Json) : Cells :=
  Fields.put id { cells.cell id with value := some value } cells

end Cells

/-- A computation that may wait. -/
inductive Script (α : Type) where
  /-- Nothing more to wait for. -/
  | finish (outcome : Outcome α)
  /-- Wait for an answer that takes time; who cannot wait refuses with `refusal`. -/
  | pause (refusal : Fault) (rest : Script α)
  /-- Wait for the value `id`, which `loader` loads unless it is loaded. -/
  | load (id : String) (loader : Loader) (next : Json → Script α)

namespace Script

variable {α β : Type}

/-- Go on with the result of a script, if it has one. -/
def bind (script : Script α) (next : α → Script β) : Script β :=
  match script with
  | .finish (.ok value) => next value
  | .finish (.error fault) => .finish (.error fault)
  | .pause refusal rest => .pause refusal (rest.bind next)
  | .load id loader rest => .load id loader fun value => (rest value).bind next

instance : Monad Script where
  pure value := .finish (.ok value)
  bind := Script.bind

/-- An outcome that needs no waiting. -/
def ofOutcome (outcome : Outcome α) : Script α :=
  .finish outcome

/-- The outcome without waiting and without loading anything. -/
def answer (cells : Cells) : Script α → Outcome α
  | .finish outcome => outcome
  | .pause refusal _ => .error refusal
  | .load id _ next =>
    match cells.value? id with
    | some value => answer cells (next value)
    | none => .error (.dependencyNotLoaded id)

/-- The outcome with all waiting done, and the cells after it. -/
def run (cells : Cells) : Script α → Outcome α × Cells
  | .finish outcome => (outcome, cells)
  | .pause _ rest => run cells rest
  | .load id loader next =>
    match cells.value? id with
    | some value => run cells (next value)
    | none =>
      let cells := cells.called id
      match loader (cells.cell id).calls with
      | .ok value => run (cells.loaded id value) (next value)
      | .error fault => (.error fault, cells)

end Script

end Strata
