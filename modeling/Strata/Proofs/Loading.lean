import Mathlib
import Strata.Proofs.Demand
import Strata.Proofs.Provision

/-!
# Loading over runs

A resolution of references may stop midway, and what it has loaded by then stays. A row of
resolutions, some of which wait and some do not, changes nothing but cells, so what can be
said of a resolution is said for any cells that such a row leaves.

Where a resolution stops, the references in front of it were resolved, as if they had been all
that was asked for; so their values are at hand afterwards. Those behind it were not looked at,
so the resolution is that of the references up to there, and it can only touch what they ask
for. Where it goes through, it could have been answered at once from what it leaves.

The count of calls is an invariant of single steps. A step calls a loader only where there is
no value, and then either the call fails, and there is one failure more, or there is a value,
which is the only call that was not a failure. Since every load of a resolution is of a value
as it is defined, the invariant passes from step to step, through whichever end a resolution
has, and from one resolution to the next.
-/

namespace Strata

/-! ## Steps of a run -/

namespace Script

variable {α : Type} {demand : String → Loader → Prop}

/-- One step of a run: a wait that is over, a value that is there, or a call of a loader with
its outcome. -/
inductive Step {α : Type} : Script α × Cells → Script α × Cells → Prop
  | pause {refusal : Fault} {rest : Script α} {cells : Cells} :
      Step (.pause refusal rest, cells) (rest, cells)
  | held {id : String} {loader : Loader} {next : Json → Script α} {cells : Cells} {value : Json}
      (h : cells.value? id = some value) : Step (.load id loader next, cells) (next value, cells)
  | loads {id : String} {loader : Loader} {next : Json → Script α} {cells : Cells} {value : Json}
      (hnew : cells.value? id = none) (h : loader ((cells.cell id).calls + 1) = .ok value) :
      Step (.load id loader next, cells) (next value, (cells.called id).loaded id value)
  | fails {id : String} {loader : Loader} {next : Json → Script α} {cells : Cells} {fault : Fault}
      (hnew : cells.value? id = none) (h : loader ((cells.cell id).calls + 1) = .error fault) :
      Step (.load id loader next, cells) (.finish (.error fault), cells.called id)

theorem run_load {id : String} {cells : Cells} (hnew : cells.value? id = none) (loader : Loader)
    (next : Json → Script α) :
    (Script.load id loader next).run cells =
      match loader ((cells.cell id).calls + 1) with
      | .ok value => (next value).run ((cells.called id).loaded id value)
      | .error fault => (.error fault, cells.called id) := by
  rw [run, hnew]
  cases hcall : loader ((cells.cell id).calls + 1) with
  | ok value => simp only [Cells.cell_called_self, hcall]
  | error fault => simp only [Cells.cell_called_self, hcall]

/-- What is met on a run, from its start to its end. -/
def Meets {α : Type} : Script α × Cells → Script α × Cells → Prop :=
  Relation.ReflTransGen Step

/-- A run takes steps until nothing is left to do. -/
theorem meets_run (script : Script α) (cells : Cells) :
    Meets (script, cells) (.finish (script.run cells).1, (script.run cells).2) := by
  induction script generalizing cells with
  | finish outcome => exact .refl
  | pause refusal rest ih => exact .head .pause (ih cells)
  | load id loader next ih =>
      cases hvalue : cells.value? id with
      | some value =>
          rw [run, hvalue]
          exact .head (.held hvalue) (ih value cells)
      | none =>
          rw [run_load hvalue]
          split
          · next value hcall => exact .head (.loads hvalue hcall) (ih value _)
          · next fault hcall => exact .single (.fails hvalue hcall)

theorem LoadsOnly.step {now next : Script α × Cells} (h : LoadsOnly demand now.1)
    (hstep : Step now next) : LoadsOnly demand next.1 := by
  cases hstep with
  | pause =>
      cases h with
      | pause h => exact h
  | held _ | loads _ _ =>
      cases h with
      | load _ h => exact h _
  | fails _ _ => exact .finish _

end Script

open Script (Step Meets LoadsOnly)

/-! ## Counting calls -/

/-- How many of the first calls of a loader fail. -/
def failures (loader : Loader) : Nat → Nat
  | 0 => 0
  | calls + 1 => failures loader calls + if (loader (calls + 1)).isOk then 0 else 1

/-- A loader has been called as often as it has failed, and once more if there is a value,
which that last call gave. -/
structure Tallies (loader : Loader) (cell : Cell) : Prop where
  calls : cell.calls = failures loader cell.calls + if cell.value.isSome then 1 else 0
  value : ∀ value, cell.value = some value → loader cell.calls = .ok value

theorem Tallies.fresh (loader : Loader) : Tallies loader {} :=
  ⟨rfl, fun _ h => nomatch h⟩

section Tallies

variable {loader : Loader} {cell : Cell}

theorem Tallies.fail (h : Tallies loader cell) (hnew : cell.value = none) {fault : Fault}
    (hcall : loader (cell.calls + 1) = .error fault) :
    Tallies loader { cell with calls := cell.calls + 1 } := by
  have hcalls := h.calls
  refine ⟨?_, fun value hvalue => ?_⟩
  · rw [hnew] at hcalls ⊢
    simp only [failures, hcall, Except.isOk, Except.toBool, Option.isSome_none,
      Bool.false_eq_true, if_false] at hcalls ⊢
    omega
  · rw [hnew] at hvalue
    cases hvalue

theorem Tallies.load (h : Tallies loader cell) (hnew : cell.value = none) {value : Json}
    (hcall : loader (cell.calls + 1) = .ok value) :
    Tallies loader { calls := cell.calls + 1, value := some value } := by
  have hcalls := h.calls
  refine ⟨?_, fun other hother => ?_⟩
  · rw [hnew] at hcalls
    simp only [failures, hcall, Except.isOk, Except.toBool, Option.isSome_none,
      Option.isSome_some, Bool.false_eq_true, if_false, if_true] at hcalls ⊢
    omega
  · cases hother
    exact hcall

end Tallies

namespace Sources

variable {sources : Sources} {cells later : Cells} {contextId : Option String}
  {references : List String}

/-- The cell of every value that is loaded on demand tallies with its loader. -/
def Tallied (sources : Sources) (cells : Cells) : Prop :=
  ∀ id loader, Fields.get? id sources = some (.onDemand loader) → Tallies loader (cells.cell id)

/-- Every load of a script is of a value as it is defined. -/
def Loads {α : Type} (sources : Sources) (script : Script α) : Prop :=
  script.LoadsOnly fun id loader => Fields.get? id sources = some (.onDemand loader)

theorem loads_resolve (sources : Sources) (contextId : Option String) (references : List String) :
    sources.Loads (sources.resolve contextId references) :=
  loadsOnly_resolve.mono fun _ _ h => h.2

theorem Tallied.of_cell (h : sources.Tallied cells) {id : String} {loader : Loader}
    (hsource : Fields.get? id sources = some (.onDemand loader))
    (hcell : Tallies loader (later.cell id))
    (hothers : ∀ other, other ≠ id → later.cell other = cells.cell other) :
    sources.Tallied later := by
  intro other otherLoader hother
  by_cases hsame : other = id
  · subst hsame
    cases hsource.symm.trans hother
    exact hcell
  · rw [hothers other hsame]
    exact h other otherLoader hother

theorem Tallied.step {α : Type} {now next : Script α × Cells} (h : sources.Tallied now.2)
    (hloads : sources.Loads now.1) (hstep : Step now next) : sources.Tallied next.2 := by
  cases hstep with
  | pause | held _ => exact h
  -- The loader that is called is that of the source, so its count is the one that changes.
  | @loads id loader rest cells value hnew hcall =>
      cases hloads with
      | load hsource _ =>
          have hcell := (h id loader hsource).load hnew hcall
          refine h.of_cell hsource ?_ fun other hother => ?_
          · rw [Cells.cell_loaded_self, Cells.cell_called_self]
            exact hcell
          · rw [Cells.cell_loaded_of_ne hother, Cells.cell_called_of_ne hother]
  | @fails id loader rest cells fault hnew hcall =>
      cases hloads with
      | load hsource _ =>
          refine h.of_cell hsource ?_ fun other hother => Cells.cell_called_of_ne hother cells
          rw [Cells.cell_called_self]
          exact (h id loader hsource).fail hnew hcall

theorem Tallied.meets {α : Type} {start now : Script α × Cells} (h : sources.Tallied start.2)
    (hloads : sources.Loads start.1) (hmeets : Meets start now) :
    sources.Loads now.1 ∧ sources.Tallied now.2 := by
  induction hmeets with
  | refl => exact ⟨hloads, h⟩
  | tail _ hstep ih => exact ⟨ih.1.step hstep, ih.2.step ih.1 hstep⟩

/-! ## Rows of resolutions -/

/-- References that are resolved with all waiting done, or from what is at hand. -/
inductive Call
  | resolve (contextId : Option String) (references : List String)
  | resolveReady (contextId : Option String) (references : List String)

def perform (sources : Sources) (cells : Cells) : Call → Outcome (List Json) × Cells
  | .resolve contextId references => (sources.resolve contextId references).run cells
  | .resolveReady contextId references => (sources.resolveReady cells contextId references, cells)

/-- What is loaded after calls, when nothing was loaded before. -/
def afterCalls (sources : Sources) (calls : List Call) : Cells :=
  calls.foldl (fun cells call => (sources.perform cells call).2) []

theorem Tallied.perform (h : sources.Tallied cells) (call : Call) :
    sources.Tallied (sources.perform cells call).2 := by
  cases call with
  | resolve contextId references =>
      exact (h.meets (loads_resolve sources contextId references) (Script.meets_run _ cells)).2
  | resolveReady contextId references => exact h

theorem tallied_afterCalls (sources : Sources) (calls : List Call) :
    sources.Tallied (sources.afterCalls calls) := by
  induction calls using List.reverseRecOn with
  | nil => exact fun id loader _ => .fresh loader
  | append_singleton calls call ih =>
      rw [afterCalls, List.foldl_append]
      exact ih.perform call

/-! ## What is at hand -/

theorem isLoaded_iff {id : String} :
    sources.isLoaded cells id = true ↔ ∃ value, sources.lookupReady cells id = .ok value := by
  unfold isLoaded lookupReady
  cases Fields.get? id sources with
  | none => exact ⟨fun h => (Bool.false_ne_true h).elim, fun ⟨_, h⟩ => nomatch h⟩
  | some source =>
      cases source with
      | ready value => exact ⟨fun _ => ⟨value, rfl⟩, fun _ => rfl⟩
      | onDemand loader =>
          dsimp only
          cases cells.value? id with
          | none => exact ⟨fun h => (Bool.false_ne_true h).elim, fun ⟨_, h⟩ => nomatch h⟩
          | some value => exact ⟨fun _ => ⟨value, rfl⟩, fun _ => rfl⟩

theorem isLoaded_of_keeps (hkeeps : Cells.Keeps cells later) {id : String}
    (h : sources.isLoaded cells id = true) : sources.isLoaded later id = true := by
  unfold isLoaded at h ⊢
  cases hsource : Fields.get? id sources with
  | none =>
      rw [hsource] at h
      exact h
  | some source =>
      rw [hsource] at h
      cases source with
      | ready value => rfl
      | onDemand loader =>
          obtain ⟨value, hvalue⟩ := Option.isSome_iff_exists.mp h
          exact Option.isSome_of_eq_some (hkeeps id value hvalue)

/-- A reference to a value that is at hand. -/
def AtHand (sources : Sources) (cells : Cells) (contextId : Option String) (reference : String) :
    Prop :=
  ∃ id, Reference.resolve contextId reference = .ok id ∧ sources.isLoaded cells id = true

theorem exists_resolveReady_iff :
    (∃ values, sources.resolveReady cells contextId references = .ok values) ↔
      ∀ reference ∈ references, sources.AtHand cells contextId reference := by
  have hone : ∀ reference, sources.AtHand cells contextId reference ↔ ∃ value,
      (do let id ← Reference.resolve contextId reference
          sources.lookupReady cells id) = .ok value := by
    intro reference
    simp only [AtHand, isLoaded_iff, Outcome.bind_eq_ok]
    exact ⟨fun ⟨id, hid, value, hvalue⟩ => ⟨value, id, hid, hvalue⟩,
      fun ⟨value, id, hid, hvalue⟩ => ⟨id, hid, value, hvalue⟩⟩
  simp only [hone]
  constructor
  · intro h
    obtain ⟨values, hvalues⟩ := h
    exact (Outcome.of_mapM_eq_ok hvalues).1
  · intro h
    rcases Outcome.ok_or_error (sources.resolveReady cells contextId references) with hok | hfault
    · exact hok
    · obtain ⟨reference, hmem, fault, hrefused⟩ := Outcome.mapM_isError_iff.mp hfault
      exact absurd (h reference hmem) (Outcome.not_ok_of_error hrefused)

/-- What a resolution that goes through has found is at hand from then on. -/
theorem resolveReady_of_run {values : List Json}
    (h : (sources.resolve contextId references).run cells = (.ok values, later)) :
    sources.resolveReady later contextId references = .ok values := by
  have hanswer := (Sources.prompt_resolve sources contextId references).answer_of_run
    (congrArg Prod.fst h)
  rw [h, Sources.answer_resolve] at hanswer
  exact hanswer

theorem Provides.exists_values {ids : List String} {values : List Json}
    (h : sources.Provides cells ids values) : ∃ valueOf : String → Json,
      values = ids.map valueOf ∧ ∀ id ∈ ids, sources.lookupReady cells id = .ok (valueOf id) := by
  let valueOf (id : String) : Json := (sources.lookupReady cells id).toOption.getD .null
  have heq : ∀ {id value}, sources.lookupReady cells id = .ok value → valueOf id = value := by
    intro id value hvalue
    simp only [valueOf, hvalue, Except.toOption, Option.getD_some]
  refine ⟨valueOf, ?_⟩
  induction h with
  | nil => exact ⟨rfl, List.forall_mem_nil _⟩
  | cons hvalue _ ih =>
      obtain ⟨hrest, hall⟩ := ih
      refine ⟨by rw [List.map_cons, heq hvalue, hrest], List.forall_mem_cons.mpr ⟨?_, hall⟩⟩
      rw [heq hvalue]
      exact hvalue

/-! ## Where a resolution stops -/

/-- The value of one reference. -/
def lookupReference (sources : Sources) (contextId : Option String) (reference : String) :
    Script Json := do
  let id ← Script.ofOutcome (Reference.resolve contextId reference)
  sources.lookup id

theorem resolve_cons (reference : String) :
    sources.resolve contextId (reference :: references)
      = sources.lookupReference contextId reference >>= fun value =>
        (value :: ·) <$> sources.resolve contextId references := by
  simp only [resolve, lookupReference, bind_assoc, map_eq_pure_bind]

/-- A reference that cannot be resolved, what is reported for it, and what it leaves: a loader
that fails has been called once more. -/
inductive Refused (sources : Sources) (contextId : Option String) (reference : String)
    (cells : Cells) : Fault → Cells → Prop
  | unresolved {fault : Fault} (h : Reference.resolve contextId reference = .error fault) :
      Refused sources contextId reference cells fault cells
  | undefined {id : String} (hid : Reference.resolve contextId reference = .ok id)
      (h : Fields.get? id sources = none) :
      Refused sources contextId reference cells (.dependencyUndefined id) cells
  | failed {id : String} {loader : Loader} {fault : Fault}
      (hid : Reference.resolve contextId reference = .ok id)
      (hsource : Fields.get? id sources = some (.onDemand loader))
      (hnew : cells.value? id = none) (h : loader ((cells.cell id).calls + 1) = .error fault) :
      Refused sources contextId reference cells fault (cells.called id)

theorem refused_of_run {reference : String} {fault : Fault}
    (h : (sources.lookupReference contextId reference).run cells = (.error fault, later)) :
    sources.Refused contextId reference cells fault later := by
  rw [lookupReference, Script.run_bind] at h
  cases hid : Reference.resolve contextId reference with
  | error refusal =>
      rw [hid] at h
      cases h
      exact .unresolved hid
  | ok id =>
      rw [hid] at h
      change (sources.lookup id).run cells = _ at h
      rw [lookup] at h
      cases hsource : Fields.get? id sources with
      | none =>
          rw [hsource] at h
          cases h
          exact .undefined hid hsource
      | some source =>
          rw [hsource] at h
          cases source with
          | ready value => cases h
          | onDemand loader =>
              dsimp only at h
              cases hvalue : cells.value? id with
              | some value =>
                  rw [Script.run, hvalue] at h
                  cases h
              | none =>
                  rw [Script.run_load hvalue] at h
                  split at h
                  · cases h
                  · next hcall =>
                      cases h
                      exact .failed hid hsource hvalue hcall

theorem run_resolve_cons {reference : String} {value : Json}
    (h : (sources.lookupReference contextId reference).run cells = (.ok value, later)) :
    (sources.resolve contextId (reference :: references)).run cells
      = Prod.map ((value :: ·) <$> ·) id ((sources.resolve contextId references).run later) := by
  rw [resolve_cons, Script.run_bind, h]
  exact Script.run_map _ _ _

theorem run_resolve_cons_of_error {reference : String} {fault : Fault}
    (h : (sources.lookupReference contextId reference).run cells = (.error fault, later)) :
    (sources.resolve contextId (reference :: references)).run cells = (.error fault, later) := by
  rw [resolve_cons, Script.run_bind, h]

/-- A resolution that is refused goes through up to a reference, and stops there whatever
stands behind it. -/
theorem exists_split_of_run {fault : Fault}
    (h : (sources.resolve contextId references).run cells = (.error fault, later)) :
    ∃ front reference behind values between, references = front ++ reference :: behind
      ∧ (sources.resolve contextId front).run cells = (.ok values, between)
      ∧ (sources.lookupReference contextId reference).run between = (.error fault, later)
      ∧ (sources.resolve contextId (front ++ [reference])).run cells = (.error fault, later) := by
  induction references generalizing cells with
  | nil => cases h
  | cons first rest ih =>
      rcases hfirst : (sources.lookupReference contextId first).run cells with
        ⟨refusal | value, between⟩
      · rw [run_resolve_cons_of_error hfirst] at h
        cases h
        exact ⟨[], first, rest, [], cells, rfl, rfl, hfirst, run_resolve_cons_of_error hfirst⟩
      · rw [run_resolve_cons hfirst] at h
        rcases hrest : (sources.resolve contextId rest).run between with ⟨refusal | values, last⟩
        · rw [hrest] at h
          cases h
          obtain ⟨front, reference, behind, values, middle, rfl, hfront, hrefused, hstops⟩ :=
            ih hrest
          refine ⟨first :: front, reference, behind, value :: values, middle, rfl, ?_, hrefused, ?_⟩
          · rw [run_resolve_cons hfirst, hfront]
            rfl
          · rw [List.cons_append, run_resolve_cons hfirst, hstops]
            rfl
        · rw [hrest] at h
          cases h

/-- A resolution stops at a reference: those in front are resolved and their values at hand,
it is refused itself, and nothing has happened to what they do not ask for. -/
structure StopsAt (sources : Sources) (contextId : Option String) (cells : Cells)
    (front : List String) (reference : String) (fault : Fault) (later : Cells) : Prop where
  refused : ∃ values between, (sources.resolve contextId front).run cells = (.ok values, between)
    ∧ sources.Refused contextId reference between fault later
  loaded : ∀ earlier ∈ front, sources.AtHand later contextId earlier
  untouched : ∀ id, ¬ Asks contextId (front ++ [reference]) id → later.cell id = cells.cell id

theorem exists_stopsAt {fault : Fault}
    (h : (sources.resolve contextId references).run cells = (.error fault, later)) :
    ∃ front reference behind, references = front ++ reference :: behind
      ∧ sources.StopsAt contextId cells front reference fault later := by
  obtain ⟨front, reference, behind, values, between, hsplit, hfront, hrefused, hstops⟩ :=
    exists_split_of_run h
  have hkeeps : Cells.Keeps between later := by
    have hkeeps := Script.keeps_run (sources.lookupReference contextId reference) between
    rw [hrefused] at hkeeps
    exact hkeeps
  refine ⟨front, reference, behind, hsplit, ⟨values, between, hfront, refused_of_run hrefused⟩,
    fun earlier hmem => ?_, fun id hasks => ?_⟩
  · obtain ⟨id, hid, hloaded⟩ :=
      exists_resolveReady_iff.mp ⟨values, resolveReady_of_run hfront⟩ earlier hmem
    exact ⟨id, hid, isLoaded_of_keeps hkeeps hloaded⟩
  · have hloads : (sources.resolve contextId (front ++ [reference])).LoadsOnly _ :=
      loadsOnly_resolve
    have hcell := hloads.cell_run (fun loader hdemand => hasks hdemand.1) cells
    rw [hstops] at hcell
    exact hcell

/-- Whatever has been resolved before, with loaders that fail or not, and whatever is resolved
next: at each point of that, every loader has been called as often as it has failed, and once
more exactly if its value is loaded. If it is refused, it stops at a reference, with the fault
of that one. If it goes through, there is one value for each reference, which depends on what
the reference resolves to and on nothing else. Without waiting it is not refused exactly if
all of it is at hand, and nothing changes. -/
theorem loading_over_runs (sources : Sources) (calls : List Call) (contextId : Option String)
    (references : List String) :
    let cells := sources.afterCalls calls
    (∀ now, Meets (sources.resolve contextId references, cells) now → sources.Tallied now.2)
    ∧ (∀ fault later, (sources.resolve contextId references).run cells = (.error fault, later) →
      ∃ front reference behind, references = front ++ reference :: behind
        ∧ sources.StopsAt contextId cells front reference fault later)
    ∧ (∀ values later, (sources.resolve contextId references).run cells = (.ok values, later) →
      ∃ ids valueOf, Reference.ResolveTo contextId references ids ∧ values = ids.map valueOf
        ∧ ∀ id ∈ ids, sources.lookupReady later id = .ok (valueOf id))
    ∧ ((∃ values, sources.resolveReady cells contextId references = .ok values) ↔
      ∀ reference ∈ references, sources.AtHand cells contextId reference)
    ∧ sources.afterCalls (calls ++ [.resolveReady contextId references]) = cells := by
  intro cells
  refine ⟨fun now hmeets => ?_, fun fault later h => exists_stopsAt h, fun values later h => ?_,
    exists_resolveReady_iff, ?_⟩
  · have htallied : sources.Tallied cells := tallied_afterCalls sources calls
    exact (htallied.meets (loads_resolve sources contextId references) hmeets).2
  · obtain ⟨ids, hids, hprovides⟩ := of_resolveReady (resolveReady_of_run h)
    obtain ⟨valueOf, hvalues, hfound⟩ := hprovides.exists_values
    exact ⟨ids, valueOf, hids, hvalues, hfound⟩
  · rw [afterCalls, List.foldl_append]
    rfl

/-- One value that is there and one that is loaded at the second call. -/
def sizeAndPalette : Sources :=
  [("app/palette", .onDemand Engine.reluctant), ("app/size", .ready (.text "9"))]

theorem sizeAndPalette_loading :
    let references := ["./palette", "./size", "./palette", "./shade", "app/late"]
    let failed : Cells := [("app/palette", { calls := 1 })]
    let later : Cells := [("app/palette", { calls := 2, value := some (.text "blue") })]
    sizeAndPalette.afterCalls [.resolve (some "app/rules") ["./size", "./palette"]] = failed
      ∧ (¬ ∃ values, sizeAndPalette.resolveReady failed (some "app/rules") references = .ok values)
      ∧ (sizeAndPalette.resolve (some "app/rules") references).run failed
        = (.error (.dependencyUndefined "app/shade"), later)
      ∧ (∃ front reference behind, references = front ++ reference :: behind
        ∧ sizeAndPalette.StopsAt (some "app/rules") failed front reference
          (.dependencyUndefined "app/shade") later)
      ∧ sizeAndPalette.Tallied later := by
  intro references failed later
  have hfailed : sizeAndPalette.afterCalls
      [.resolve (some "app/rules") ["./size", "./palette"]] = failed := by cbv
  have hrun : (sizeAndPalette.resolve (some "app/rules") references).run failed
      = (.error (.dependencyUndefined "app/shade"), later) := by cbv
  have hpalette : Reference.resolve (some "app/rules") "./palette" = .ok "app/palette" := by cbv
  have h := loading_over_runs sizeAndPalette
    [.resolve (some "app/rules") ["./size", "./palette"]] (some "app/rules") references
  rw [hfailed] at h
  obtain ⟨htallied, hstops, -, hready, -⟩ := h
  have hmeets := Script.meets_run (sizeAndPalette.resolve (some "app/rules") references) failed
  rw [hrun] at hmeets
  refine ⟨hfailed, fun hthere => ?_, hrun, hstops _ _ hrun, htallied _ hmeets⟩
  obtain ⟨id, hid, hloaded⟩ := hready.mp hthere "./palette" List.mem_cons_self
  cases hpalette.symm.trans hid
  cases hloaded

end Sources

end Strata
