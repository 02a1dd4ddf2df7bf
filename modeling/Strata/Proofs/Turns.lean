import Strata.Proofs.Forecast
import Strata.Schedule

/-!
# Turns of scripts that share their cells

However turns are taken, scripts whose loads come to what is forecast come to the outcomes
that are forecast. One turn does one of few things to a schedule: a script goes on to its
next wait, joins the queue of a gate, calls a loader and holds the gate, or keeps what it
has loaded and removes the gate. Each of them hands the invariant on, `Steady`: a gate
stands as long as exactly one script is loading its value, and not once the value is there;
and a loader has not been called since the start unless its gate stands or its value has
been loaded, and then once.

No load fails, so a gate is never passed on and queues do not matter. A script waits in vain
only while somebody else is loading, and whoever is loading goes on at the next turn. So as
long as there is something left to do, a round in which everybody has a turn gets on.
-/

namespace Strata

variable {α : Type}

def Task.remaining : Task α → Script α
  | .ready script => script
  | .loading id answer next => .load id (fun _ => answer) next
  | .waiting id loader next => .load id loader next
  | .finished outcome => .finish outcome

def Task.loads? : Task α → Option String
  | .loading id _ _ => some id
  | _ => none

def loadsAt (tasks : List (Task α)) (index : Nat) : Option String :=
  tasks[index]?.bind Task.loads?

theorem loadsAt_set {tasks : List (Task α)} {index : Nat} (hindex : index < tasks.length)
    (task : Task α) (other : Nat) :
    loadsAt (tasks.set index task) other
      = if other = index then task.loads? else loadsAt tasks other := by
  rw [loadsAt, List.getElem?_set]
  by_cases hother : other = index
  · subst hother
    rw [if_pos rfl, if_pos rfl, if_pos hindex]
    rfl
  · rw [if_neg (Ne.symm hother), if_neg hother]
    rfl

namespace Shared

def holder? (shared : Shared) (id : String) : Option Nat :=
  (Fields.get? id shared.gates).map Gate.holder

theorem holder?_put (shared : Shared) (id : String) (gate : Gate) (cells : Cells)
    (other : String) :
    ({ cells, gates := Fields.put id gate shared.gates } : Shared).holder? other
      = if other = id then some gate.holder else shared.holder? other := by
  rw [holder?]
  split
  · next heq =>
      subst heq
      rw [Fields.get?_put_self]
      rfl
  · next hne =>
      rw [Fields.get?_put_of_ne hne]
      rfl

theorem holder?_keep (shared : Shared) (id : String) (value : Json) (other : String) :
    (shared.keep id value).holder? other
      = if other = id then none else shared.holder? other := by
  rw [holder?, keep]
  split
  · next heq =>
      subst heq
      rw [Fields.get?_erase_self]
      rfl
  · next hne =>
      rw [Fields.get?_erase_of_ne hne]
      rfl

end Shared

/-- Two maps that are inverse to each other stay so where an entry comes or goes. -/
theorem inverse_update {holder : String → Option Nat} {loads : Nat → Option String}
    (h : ∀ id index, holder id = some index ↔ loads index = some id) {id : String} {index : Nat}
    (hholder : ∀ other, holder id = some other → other = index)
    (hloads : ∀ other, loads index = some other → other = id) (present : Bool)
    (other : String) (place : Nat) :
    (if other = id then (if present then some index else none) else holder other) = some place ↔
      (if place = index then (if present then some id else none) else loads place)
        = some other := by
  by_cases hother : other = id <;> by_cases hplace : place = index
  · cases present <;> simp [hother, hplace]
  · have hnot : loads place ≠ some other := fun heq =>
      hplace (hholder place (hother ▸ (h other place).mpr heq))
    cases present <;> simp [hother, hplace, hother ▸ hnot, Ne.symm hplace]
  · have hnot : holder other ≠ some place := fun heq =>
      hother (hloads other (hplace ▸ (h other place).mp heq))
    cases present <;> simp [hother, hplace, hplace ▸ hnot, Ne.symm hother]
  · rw [if_neg hother, if_neg hplace, h]

namespace Forecast

variable {forecast : Forecast} {outcomes : List (Outcome α)} {schedule : Schedule α}
  {shared : Shared} {tasks : List (Task α)} {index : Nat} {task : Task α}

/-- Scripts on their way to the forecast outcomes. -/
structure Steady (forecast : Forecast) (outcomes : List (Outcome α)) (schedule : Schedule α) :
    Prop where
  holds : forecast.Holds schedule.shared.cells
  outcomes : schedule.tasks.map (fun task => forecast.outcome task.remaining) = outcomes
  allowed : ∀ task ∈ schedule.tasks, task.remaining.LoadsOnly forecast.Allows
  /-- A value is loaded by the one who holds its gate and by nobody else. -/
  exclusive : ∀ id index, schedule.shared.holder? id = some index ↔
    loadsAt schedule.tasks index = some id
  /-- Where there is a gate there is no value yet. -/
  missing : ∀ id, (schedule.shared.holder? id).isSome → schedule.shared.cells.value? id = none
  /-- Without a value or a gate there has been no call. -/
  uncalled : ∀ id, schedule.shared.cells.value? id = none →
    schedule.shared.holder? id = none →
    (schedule.shared.cells.cell id).calls = (forecast.initial.cell id).calls
  /-- There has been no call, or one that was needed. -/
  calls : ∀ id,
    (schedule.shared.cells.cell id).calls = (forecast.initial.cell id).calls
      ∨ ((schedule.shared.cells.cell id).calls = (forecast.initial.cell id).calls + 1
        ∧ forecast.initial.value? id = none ∧ forecast.Demanded id)

theorem steady_start {scripts : List (Script α)}
    (h : ∀ script ∈ scripts, script.LoadsOnly forecast.Allows)
    (hinitial : ∀ id value, forecast.initial.value? id = some value →
      value = forecast.value id) :
    forecast.Steady (scripts.map forecast.outcome)
      (Schedule.start forecast.initial scripts) where
  holds := ⟨.refl _, hinitial⟩
  outcomes := by
    rw [Schedule.start, List.map_map]
    rfl
  allowed := by
    intro task htask
    obtain ⟨script, hscript, rfl⟩ := List.mem_map.mp htask
    exact h script hscript
  exclusive := by
    intro id index
    refine ⟨nofun, fun hloading => ?_⟩
    rw [loadsAt, Schedule.start, List.getElem?_map] at hloading
    cases hscript : scripts[index]? <;> rw [hscript] at hloading <;> cases hloading
  missing := nofun
  uncalled := fun id _ _ => rfl
  calls := fun id => .inl rfl

/-! ## What a turn can do -/

namespace Steady

theorem allowed_of_getElem? (h : forecast.Steady outcomes ⟨shared, tasks⟩)
    (htask : tasks[index]? = some task) : task.remaining.LoadsOnly forecast.Allows :=
  h.allowed task (List.mem_of_getElem? htask)

theorem outcomes_set (h : forecast.Steady outcomes ⟨shared, tasks⟩)
    (htask : tasks[index]? = some task) {new : Task α}
    (hsame : forecast.outcome new.remaining = forecast.outcome task.remaining) :
    (tasks.set index new).map (fun task => forecast.outcome task.remaining) = outcomes := by
  have hold : (tasks.map fun task => forecast.outcome task.remaining)[index]?
      = some (forecast.outcome new.remaining) := by
    rw [List.getElem?_map, htask, hsame]
    rfl
  obtain ⟨hindex, hget⟩ := List.getElem?_eq_some_iff.mp hold
  rw [List.map_set, ← hget, List.set_getElem_self]
  exact h.outcomes

theorem allowed_set (h : forecast.Steady outcomes ⟨shared, tasks⟩) {new : Task α}
    (hnew : new.remaining.LoadsOnly forecast.Allows) :
    ∀ task ∈ tasks.set index new, task.remaining.LoadsOnly forecast.Allows := by
  intro task htask
  rcases List.mem_or_eq_of_mem_set htask with hmem | rfl
  · exact h.allowed task hmem
  · exact hnew

theorem resume (h : forecast.Steady outcomes ⟨shared, tasks⟩)
    (htask : tasks[index]? = some task) (hidle : task.loads? = none) {new : Task α}
    (hnew : new.loads? = none)
    (hsame : forecast.outcome new.remaining = forecast.outcome task.remaining)
    (hallowed : new.remaining.LoadsOnly forecast.Allows) :
    forecast.Steady outcomes ⟨shared, tasks.set index new⟩ where
  holds := h.holds
  outcomes := h.outcomes_set htask hsame
  allowed := h.allowed_set hallowed
  exclusive := by
    intro id other
    refine (h.exclusive id other).trans ?_
    have hnothing : loadsAt tasks index = none := by rw [loadsAt, htask]; exact hidle
    rw [loadsAt_set (List.getElem?_eq_some_iff.mp htask).1, hnew]
    split
    · next heq => rw [heq, hnothing]
    · rfl
  missing := h.missing
  uncalled := h.uncalled
  calls := h.calls

theorem enqueue (h : forecast.Steady outcomes ⟨shared, tasks⟩) {id : String} {gate : Gate}
    (hgate : Fields.get? id shared.gates = some gate) (queue : List Nat) :
    forecast.Steady outcomes
      ⟨{ shared with gates := Fields.put id ⟨gate.holder, queue⟩ shared.gates }, tasks⟩ := by
  have hholder : Shared.holder? { shared with
      gates := Fields.put id ⟨gate.holder, queue⟩ shared.gates } = shared.holder? := by
    funext other
    rw [Shared.holder?_put]
    split
    · next heq => rw [heq, Shared.holder?, hgate]; rfl
    · rfl
  exact ⟨h.holds, h.outcomes, h.allowed, hholder ▸ h.exclusive, hholder ▸ h.missing,
    hholder ▸ h.uncalled, h.calls⟩

/-- Somebody needs a value that is not there and that nobody loads, and calls its loader. -/
theorem startLoad (h : forecast.Steady outcomes ⟨shared, tasks⟩)
    (htask : tasks[index]? = some task) (hidle : task.loads? = none) {id : String}
    {loader : Loader} {next : Json → Script α} (hload : task.remaining = .load id loader next)
    (hnone : shared.cells.value? id = none) (hungated : shared.holder? id = none)
    (queue : List Nat) :
    forecast.Steady outcomes
      ⟨(shared.startLoad index id queue loader next).1,
        tasks.set index (shared.startLoad index id queue loader next).2⟩ := by
  have hallowed := h.allowed_of_getElem? htask
  rw [hload] at hallowed
  cases hallowed with
  | load hdemand hnext =>
  have hinitial := h.holds.initial_none hnone
  have hindex := (List.getElem?_eq_some_iff.mp htask).1
  have hnothing : loadsAt tasks index = none := by rw [loadsAt, htask]; exact hidle
  rw [Shared.startLoad]
  refine ⟨h.holds.called id, h.outcomes_set htask (by rw [hload]; rfl),
    h.allowed_set (.load ⟨hdemand.1, fun _ _ => hdemand.2 hinitial _⟩ hnext), ?_, ?_, ?_, ?_⟩
  · intro other place
    dsimp only
    rw [Shared.holder?_put, loadsAt_set hindex]
    exact inverse_update h.exclusive (fun _ heq => by rw [hungated] at heq; cases heq)
      (fun _ heq => by rw [hnothing] at heq; cases heq) true other place
  · intro other hholder
    dsimp only at hholder ⊢
    rw [Shared.holder?_put] at hholder
    rw [Cells.value?_called]
    split at hholder
    · next heq => rw [heq, hnone]
    · exact h.missing other hholder
  · intro other hmissing hholder
    dsimp only at hmissing hholder ⊢
    rw [Shared.holder?_put] at hholder
    rw [Cells.value?_called] at hmissing
    split at hholder
    · cases hholder
    · next hne =>
        rw [Cells.cell_called_of_ne hne]
        exact h.uncalled other hmissing hholder
  · intro other
    dsimp only
    by_cases hother : other = id
    · subst hother
      refine .inr ⟨?_, hinitial, hdemand.1⟩
      rw [Cells.cell_called_self]
      exact congrArg (· + 1) (h.uncalled other hnone hungated)
    · rw [Cells.cell_called_of_ne hother]
      exact h.calls other

/-- Somebody has loaded what is forecast, and keeps it. -/
theorem keep (h : forecast.Steady outcomes ⟨shared, tasks⟩) {id : String}
    {answer : Outcome Json} {next : Json → Script α}
    (htask : tasks[index]? = some (.loading id answer next)) :
    answer = .ok (forecast.value id)
      ∧ forecast.Steady outcomes ⟨shared.keep id (forecast.value id),
        tasks.set index (.ready (next (forecast.value id)))⟩ := by
  have hindex := (List.getElem?_eq_some_iff.mp htask).1
  have hloads : loadsAt tasks index = some id := by rw [loadsAt, htask]; rfl
  have hholder : shared.holder? id = some index := (h.exclusive id index).mpr hloads
  have hnone : shared.cells.value? id = none := h.missing id (Option.isSome_of_eq_some hholder)
  have hallowed := h.allowed_of_getElem? htask
  cases hallowed with
  | load hdemand hnext =>
  refine ⟨hdemand.2 (h.holds.initial_none hnone) 0, h.holds.loaded hnone,
    h.outcomes_set htask rfl, h.allowed_set (hnext _), ?_, ?_, ?_, ?_⟩
  · intro other place
    dsimp only
    rw [Shared.holder?_keep, loadsAt_set hindex]
    exact inverse_update h.exclusive (fun _ heq => Option.some.inj (heq.symm.trans hholder))
      (fun _ heq => Option.some.inj (heq.symm.trans hloads)) false other place
  · intro other hheld
    dsimp only at hheld ⊢
    rw [Shared.holder?_keep] at hheld
    split at hheld
    · cases hheld
    · next hne =>
        rw [Shared.keep, Cells.value?_loaded_of_ne hne]
        exact h.missing other hheld
  · intro other hmissing hheld
    have hne : other ≠ id := by
      rintro rfl
      rw [Shared.keep, Cells.value?_loaded_self] at hmissing
      cases hmissing
    rw [Shared.holder?_keep, if_neg hne] at hheld
    rw [Shared.keep, Cells.value?_loaded_of_ne hne] at hmissing
    rw [Shared.keep, Cells.cell_loaded_of_ne hne]
    exact h.uncalled other hmissing hheld
  · intro other
    have hcalls : ((shared.cells.loaded id (forecast.value id)).cell other).calls
        = (shared.cells.cell other).calls := by
      by_cases hother : other = id
      · subst hother
        rw [Cells.cell_loaded_self]
      · rw [Cells.cell_loaded_of_ne hother]
    rw [Shared.keep, hcalls]
    exact h.calls other

end Steady

/-! ## One turn -/

/-- How many turns that get on a task has before it, at most. -/
def turns (forecast : Forecast) : Task α → Nat
  | .ready script => 3 * forecast.waits script + 1
  | .loading id _ next => 3 * forecast.waits (next (forecast.value id)) + 2
  | .waiting id _ next => 3 * forecast.waits (next (forecast.value id)) + 3
  | .finished _ => 0

/-- A task that does not get on at its turn: it is finished, or somebody else loads the
value that it waits for. -/
def Blocked (shared : Shared) (index : Nat) : Task α → Prop
  | .finished _ => True
  | .waiting id _ _ => ∃ holder, shared.holder? id = some holder ∧ holder ≠ index
  | _ => False

namespace Steady

/-- A script runs to its next wait, which is one less. -/
theorem advance {script : Script α} (h : forecast.Steady outcomes ⟨shared, tasks⟩)
    (htask : tasks[index]? = some (.ready script)) :
    forecast.Steady outcomes
        ⟨(shared.advance index script).1, tasks.set index (shared.advance index script).2⟩
      ∧ forecast.turns (shared.advance index script).2 ≤ 3 * forecast.waits script := by
  have hallowed := h.allowed_of_getElem? htask
  induction script generalizing tasks with
  | finish outcome =>
      exact ⟨h.resume htask rfl rfl rfl hallowed, Nat.zero_le _⟩
  | pause refusal rest _ =>
      cases hallowed with
      | pause hrest => exact ⟨h.resume htask rfl rfl rfl hrest, Nat.le_add_right _ 2⟩
  | load id loader next ih =>
      cases hallowed with
      | load hdemand hnext =>
      rw [Shared.advance]
      split
      · next value hvalue =>
          -- What is there already is not waited for: the script goes on in the same turn.
          obtain rfl := h.holds.expected id value hvalue
          have hindex := (List.getElem?_eq_some_iff.mp htask).1
          have hready : Steady forecast outcomes
              ⟨shared, tasks.set index (.ready (next (forecast.value id)))⟩ :=
            h.resume htask rfl rfl rfl (hnext _)
          obtain ⟨hsteady, hturns⟩ := ih _ hready (List.getElem?_set_self hindex) (hnext _)
          rw [List.set_set] at hsteady
          exact ⟨hsteady, Nat.le_trans hturns (Nat.mul_le_mul_left 3 (Nat.le_add_right _ 1))⟩
      · next hnone =>
          split
          · next hgate =>
              have hungated : shared.holder? id = none := by rw [Shared.holder?, hgate]; rfl
              exact ⟨h.startLoad htask rfl rfl hnone hungated [], Nat.le_add_right _ 1⟩
          · next gate hgate =>
              exact ⟨(h.enqueue hgate _).resume htask rfl rfl rfl (.load hdemand hnext),
                Nat.le_refl _⟩

/-- A turn gets on unless the task is blocked, and then it changes nothing. -/
theorem turn (h : forecast.Steady outcomes ⟨shared, tasks⟩)
    (htask : tasks[index]? = some task) :
    forecast.Steady outcomes
        ⟨(shared.turn index task).1, tasks.set index (shared.turn index task).2⟩
      ∧ (forecast.turns (shared.turn index task).2 < forecast.turns task
        ∨ shared.turn index task = (shared, task) ∧ Blocked shared index task) := by
  have hindex := (List.getElem?_eq_some_iff.mp htask).1
  cases task with
  | finished outcome =>
      exact ⟨h.resume htask rfl rfl rfl (.finish _), .inr ⟨rfl, trivial⟩⟩
  | ready script =>
      obtain ⟨hsteady, hturns⟩ := h.advance htask
      exact ⟨hsteady, .inl (Nat.lt_succ_of_le hturns)⟩
  | loading id answer next =>
      -- The load cannot have failed, so the gate is never passed on.
      obtain ⟨rfl, hkept⟩ := h.keep htask
      obtain ⟨hsteady, hturns⟩ := hkept.advance (List.getElem?_set_self hindex)
      rw [List.set_set] at hsteady
      exact ⟨hsteady, .inl (Nat.lt_of_le_of_lt hturns (Nat.lt_add_of_pos_right (by decide)))⟩
  | waiting id loader next =>
      have hallowed := h.allowed_of_getElem? htask
      rw [Shared.turn]
      split
      · next value hvalue =>
          obtain rfl := h.holds.expected id value hvalue
          cases hallowed with
          | load hdemand hnext =>
          have hready : Steady forecast outcomes
              ⟨shared, tasks.set index (.ready (next (forecast.value id)))⟩ :=
            h.resume htask rfl rfl rfl (hnext _)
          obtain ⟨hsteady, hturns⟩ := hready.advance (List.getElem?_set_self hindex)
          rw [List.set_set] at hsteady
          exact ⟨hsteady,
            .inl (Nat.lt_of_le_of_lt hturns (Nat.lt_add_of_pos_right (by decide)))⟩
      · next hnone =>
          split
          · next gate hgate =>
              have hholder : shared.holder? id = some gate.holder := by
                rw [Shared.holder?, hgate]
                rfl
              -- The holder is loading the value, and this script is not.
              have hother : gate.holder ≠ index := by
                rintro heq
                have hloads := (h.exclusive id gate.holder).mp hholder
                rw [heq, loadsAt, htask] at hloads
                cases hloads
              rw [if_neg hother]
              exact ⟨h.resume htask rfl rfl rfl hallowed,
                .inr ⟨rfl, gate.holder, hholder, hother⟩⟩
          · next hgate =>
              have hungated : shared.holder? id = none := by rw [Shared.holder?, hgate]; rfl
              exact ⟨h.startLoad htask rfl rfl hnone hungated [],
                .inl (Nat.lt_succ_self _)⟩

end Steady

end Forecast

/-! ## Any order of turns -/

def total (numbers : List Nat) : Nat :=
  numbers.foldr (fun number rest => number + rest) 0

theorem total_set_lt {numbers : List Nat} {index old new : Nat}
    (h : numbers[index]? = some old) (hlt : new < old) :
    total (numbers.set index new) < total numbers := by
  induction numbers generalizing index with
  | nil => cases h
  | cons first rest ih =>
      cases index with
      | zero =>
          cases h
          exact Nat.add_lt_add_right hlt _
      | succ index => exact Nat.add_lt_add_left (ih h) first

def Schedule.Finished (schedule : Schedule α) : Prop :=
  ∀ task ∈ schedule.tasks, ∃ outcome, task = .finished outcome

theorem Schedule.Finished.polls {schedule : Schedule α} (h : schedule.Finished)
    (order : List Nat) : schedule.polls order = schedule := by
  induction order with
  | nil => rfl
  | cons index rest ih =>
      have hpoll : schedule.poll index = schedule := by
        rw [Schedule.poll]
        split
        · rfl
        · next task htask =>
            obtain ⟨outcome, rfl⟩ := h task (List.mem_of_getElem? htask)
            obtain ⟨hindex, hget⟩ := List.getElem?_eq_some_iff.mp htask
            show Schedule.mk schedule.shared (schedule.tasks.set index (.finished outcome)) = _
            rw [← hget, List.set_getElem_self]
      rw [Schedule.polls, List.foldl_cons, hpoll]
      exact ih

namespace Forecast

variable {forecast : Forecast} {outcomes : List (Outcome α)} {schedule : Schedule α}

def turnsLeft (forecast : Forecast) (schedule : Schedule α) : Nat :=
  total (schedule.tasks.map forecast.turns)

namespace Steady

theorem length_tasks (h : forecast.Steady outcomes schedule) :
    schedule.tasks.length = outcomes.length := by
  rw [← h.outcomes, List.length_map]

theorem poll (h : forecast.Steady outcomes schedule) (index : Nat) :
    forecast.Steady outcomes (schedule.poll index)
      ∧ (forecast.turnsLeft (schedule.poll index) < forecast.turnsLeft schedule
        ∨ schedule.poll index = schedule
          ∧ ∀ task, schedule.tasks[index]? = some task →
            Blocked schedule.shared index task) := by
  rw [Schedule.poll]
  split
  · next hnobody =>
      refine ⟨h, .inr ⟨rfl, fun task htask => ?_⟩⟩
      rw [hnobody] at htask
      cases htask
  · next task htask =>
      obtain ⟨hsteady, hlt | ⟨hsame, hblocked⟩⟩ := turn h htask
      · refine ⟨hsteady, .inl ?_⟩
        rw [turnsLeft, turnsLeft, List.map_set]
        exact total_set_lt (by rw [List.getElem?_map, htask]; rfl) hlt
      · refine ⟨hsteady, .inr ⟨?_, fun found hfound => ?_⟩⟩
        · rw [hsame]
          obtain ⟨hindex, hget⟩ := List.getElem?_eq_some_iff.mp htask
          show Schedule.mk schedule.shared (schedule.tasks.set index task) = _
          rw [← hget, List.set_getElem_self]
        · cases htask.symm.trans hfound
          exact hblocked

theorem polls (h : forecast.Steady outcomes schedule) (order : List Nat) :
    forecast.Steady outcomes (schedule.polls order)
      ∧ (forecast.turnsLeft (schedule.polls order) < forecast.turnsLeft schedule
        ∨ schedule.polls order = schedule
          ∧ ∀ index ∈ order, ∀ task, schedule.tasks[index]? = some task →
            Blocked schedule.shared index task) := by
  induction order generalizing schedule with
  | nil => exact ⟨h, .inr ⟨rfl, nofun⟩⟩
  | cons index rest ih =>
      rw [Schedule.polls, List.foldl_cons]
      obtain ⟨hpoll, hfirst⟩ := h.poll index
      obtain ⟨hpolls, hrest⟩ := ih hpoll
      refine ⟨hpolls, ?_⟩
      rcases hfirst with hlt | ⟨hsame, hblocked⟩
      · refine .inl (Nat.lt_of_le_of_lt ?_ hlt)
        rcases hrest with hmore | ⟨hnomore, -⟩
        · exact Nat.le_of_lt hmore
        · exact Nat.le_of_eq (congrArg forecast.turnsLeft hnomore)
      · rw [hsame] at hrest ⊢
        refine hrest.imp_right fun ⟨hnomore, hothers⟩ => ⟨hnomore, fun other hother => ?_⟩
        rcases List.mem_cons.mp hother with rfl | hmem
        · exact hblocked
        · exact hothers other hmem

/-- Not all can wait for each other: if everybody is blocked, all are finished. -/
theorem finished_of_blocked (h : forecast.Steady outcomes schedule)
    (hblocked : ∀ index task, schedule.tasks[index]? = some task →
      Blocked schedule.shared index task) : schedule.Finished := by
  intro task htask
  obtain ⟨index, hindex⟩ := List.mem_iff_getElem?.mp htask
  cases task with
  | finished outcome => exact ⟨outcome, rfl⟩
  | ready script => exact False.elim (hblocked index _ hindex)
  | loading id answer next => exact False.elim (hblocked index _ hindex)
  | waiting id loader next =>
      obtain ⟨holder, hholder, -⟩ := hblocked index _ hindex
      obtain ⟨loads, hloads, hid⟩ := Option.bind_eq_some_iff.mp
        ((h.exclusive id holder).mp hholder)
      cases loads with
      | loading other answer rest => exact False.elim (hblocked holder _ hloads)
      | ready _ | waiting _ _ _ | finished _ => cases hid

/-- A round in which everybody has a turn gets on or leaves nothing to do. -/
theorem round (h : forecast.Steady outcomes schedule) {part : List Nat}
    (hpart : ∀ index < outcomes.length, index ∈ part) :
    (schedule.polls part).Finished
      ∨ forecast.turnsLeft (schedule.polls part) < forecast.turnsLeft schedule := by
  rcases (h.polls part).2 with hlt | ⟨hsame, hblocked⟩
  · exact .inr hlt
  · rw [hsame]
    refine .inl (h.finished_of_blocked fun index task htask => ?_)
    have hindex := (List.getElem?_eq_some_iff.mp htask).1
    rw [h.length_tasks] at hindex
    exact hblocked index (hpart index hindex) task htask

/-- After enough rounds, whatever the order of turns in each of them, all is done. -/
theorem rounds (h : forecast.Steady outcomes schedule) {parts : List (List Nat)}
    (hparts : ∀ part ∈ parts, ∀ index < outcomes.length, index ∈ part)
    (hcount : forecast.turnsLeft schedule < parts.length) :
    (schedule.polls parts.flatten).Finished := by
  induction parts generalizing schedule with
  | nil => cases hcount
  | cons part rest ih =>
      rw [List.flatten_cons, Schedule.polls, List.foldl_append]
      rcases h.round (hparts part List.mem_cons_self) with hfinished | hlt
      · have hstays := hfinished.polls rest.flatten
        rw [Schedule.polls, Schedule.polls] at hstays
        rw [hstays]
        exact hfinished
      · exact ih (h.polls part).1 (fun other hother => hparts other (List.mem_cons_of_mem _ hother))
          (Nat.lt_of_lt_of_le hlt (Nat.le_of_lt_succ hcount))

/-! ## Outcomes -/

theorem outcome_of_finished (h : forecast.Steady outcomes schedule) {index : Nat}
    {outcome : Outcome α} (hfinished : schedule.outcomes[index]? = some (some outcome)) :
    outcomes[index]? = some outcome := by
  rw [Schedule.outcomes, List.getElem?_map] at hfinished
  obtain ⟨task, htask, houtcome⟩ := Option.map_eq_some_iff.mp hfinished
  rw [← h.outcomes, List.getElem?_map, htask]
  split at houtcome
  · cases houtcome
    rfl
  · cases houtcome

theorem outcomes_of_finished (h : forecast.Steady outcomes schedule)
    (hfinished : schedule.Finished) : schedule.outcomes = outcomes.map some := by
  rw [Schedule.outcomes, ← h.outcomes, List.map_map]
  refine List.map_congr_left fun task htask => ?_
  obtain ⟨outcome, rfl⟩ := hfinished task htask
  rfl

end Steady

end Forecast

end Strata
