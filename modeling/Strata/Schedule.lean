import Strata.Engine

/-!
# Scripts at once

Several scripts that share their cells and take turns. A script runs until it
has to wait; a loader, like an answer that takes time, is waited for from one
turn to a later one.

A value is loaded by one script at a time, who holds its gate. Others who need
it meanwhile queue up. If the load succeeds, the gate is gone and all of them
find the value; if it fails, the failure is the holder's outcome alone, and the
gate passes to the first in the queue, who loads again.

`poll` gives one script its turn and says nothing about whose turn it is, so
any order of turns is a list of indexes. `rounds` gives every script its turn
in order, again and again.
-/

namespace Strata

variable {α : Type}

/-- Who loads a value now, and who waits for it. -/
structure Gate where
  holder : Nat
  queue : List Nat
  deriving DecidableEq, Repr

/-- Where a script stands between its turns. -/
inductive Task (α : Type) where
  /-- It has something to do at its next turn. -/
  | ready (script : Script α)
  /-- It holds the gate of a value, and its loader will have answered by its next turn. -/
  | loading (id : String) (answer : Outcome Json) (next : Json → Script α)
  /-- It waits for a value that someone else loads. -/
  | waiting (id : String) (loader : Loader) (next : Json → Script α)
  | finished (outcome : Outcome α)

/-- What scripts share. -/
structure Shared where
  cells : Cells
  gates : Fields Gate := []

namespace Shared

/-- Call the loader of a value, holding its gate with a given queue. -/
def startLoad (shared : Shared) (index : Nat) (id : String) (queue : List Nat)
    (loader : Loader) (next : Json → Script α) : Shared × Task α :=
  let cells := shared.cells.called id
  ({ cells, gates := Fields.put id ⟨index, queue⟩ shared.gates },
    .loading id (loader (cells.cell id).calls) next)

/-- Run a script until it waits or is finished. -/
def advance (shared : Shared) (index : Nat) : Script α → Shared × Task α
  | .finish outcome => (shared, .finished outcome)
  | .pause _ rest => (shared, .ready rest)
  | .load id loader next =>
    match shared.cells.value? id with
    | some value => shared.advance index (next value)
    | none =>
      match Fields.get? id shared.gates with
      | none => shared.startLoad index id [] loader next
      | some gate =>
        ({ shared with gates := Fields.put id ⟨gate.holder, gate.queue ++ [index]⟩ shared.gates },
          .waiting id loader next)

/-- A value has been loaded: keep it and remove its gate. -/
def keep (shared : Shared) (id : String) (value : Json) : Shared where
  cells := shared.cells.loaded id value
  gates := Fields.erase id shared.gates

/-- A load has failed: pass the gate to the first in the queue. -/
def passGate (shared : Shared) (id : String) : Shared :=
  let queue := ((Fields.get? id shared.gates).map Gate.queue).getD []
  match queue with
  | [] => { shared with gates := Fields.erase id shared.gates }
  | first :: others => { shared with gates := Fields.put id ⟨first, others⟩ shared.gates }

/-- One turn of the script with the given index. -/
def turn (shared : Shared) (index : Nat) : Task α → Shared × Task α
  | .finished outcome => (shared, .finished outcome)
  | .ready script => shared.advance index script
  | .loading id (.ok value) next => (shared.keep id value).advance index (next value)
  | .loading id (.error fault) _ => (shared.passGate id, .finished (.error fault))
  | .waiting id loader next =>
    match shared.cells.value? id with
    | some value => shared.advance index (next value)
    | none =>
      match Fields.get? id shared.gates with
      | some gate =>
        if gate.holder = index then shared.startLoad index id gate.queue loader next
        else (shared, .waiting id loader next)
      | none => shared.startLoad index id [] loader next

end Shared

/-- Scripts and what they share. -/
structure Schedule (α : Type) where
  shared : Shared
  tasks : List (Task α)

namespace Schedule

/-- Scripts before their first turn. -/
def start (cells : Cells) (scripts : List (Script α)) : Schedule α where
  shared := { cells }
  tasks := scripts.map .ready

/-- One turn of the script with the given index, if there is one. -/
def poll (schedule : Schedule α) (index : Nat) : Schedule α :=
  match schedule.tasks[index]? with
  | none => schedule
  | some task =>
    let (shared, task) := schedule.shared.turn index task
    { shared, tasks := schedule.tasks.set index task }

/-- The turns that a list of indexes says, in its order. -/
def polls (schedule : Schedule α) (order : List Nat) : Schedule α :=
  order.foldl poll schedule

/-- So many rounds, in each of which every script has one turn. -/
def rounds (schedule : Schedule α) (count : Nat) : Schedule α :=
  schedule.polls ((List.replicate count (List.range schedule.tasks.length)).flatten)

/-- The outcome of each script that is finished. -/
def outcomes (schedule : Schedule α) : List (Option (Outcome α)) :=
  schedule.tasks.map fun
    | .finished outcome => some outcome
    | _ => none

end Schedule

namespace Engine

/-- How many values and answers a request can wait for. -/
def waits (engine : Engine) (query : Query) : Nat :=
  match engine.plan query with
  | .ok plan => 1 + (plan.rules.flatMap fun found => found.2.rule.deps).length
  | .error _ => 0

/-- Rounds after which requests made at once are finished. A wait takes at most
three turns that get on: queueing, loading and going on; and in every round
somebody gets on. -/
def roundsFor (engine : Engine) (queries : List Query) : Nat :=
  queries.foldl (fun rounds query => rounds + 3 * engine.waits query + 1) 1

/-- The configurations of requests made at once, and the cells after them. -/
def selectAll (engine : Engine) (cells : Cells) (queries : List Query) :
    List (Option (Outcome (Option Json))) × Cells :=
  let schedule := (Schedule.start cells (queries.map engine.selection)).rounds
    (engine.roundsFor queries)
  (schedule.outcomes, schedule.shared.cells)

end Engine

end Strata
