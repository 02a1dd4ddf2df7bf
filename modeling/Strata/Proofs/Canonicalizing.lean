import Strata.Proofs.Normalization

/-!
# Canonicalizing a selector

Canonicalization may fail, and it may have a state of its own, which it keeps when it fails.
So it matters which ids it is asked for, and in which order. `recorded` notes them, and
whatever is proved for every canonicalization is proved for a recorded one too: the state
then tells what was asked.

A selector is checked as a whole first. If an entry is null or empty, the first such entry
is named, a module entry in preference to an annotation, and nothing has been asked. If all
entries are good, the ids are asked for one after another, module ids in front. Then either
all are answered, or one is refused and those behind it are not asked for.
-/

namespace Strata

variable {State α β : Type}

/-! ## Actions on a state -/

/-- An action on a state, which a failure does not undo. -/
abbrev Action (State α : Type) : Type :=
  ExceptT Fault (StateM State) α

namespace Action

/-- The outcome of an action on a state, and the state after it. -/
def on (action : Action State α) (state : State) : Outcome α × State :=
  action.run.run state

variable {action : Action State α} {next : α → Action State β} {state between : State}

theorem on_lift (outcome : Outcome α) (state : State) :
    on (Outcome.lift outcome : Action State α) state = (outcome, state) := by
  cases outcome <;> rfl

theorem on_bind_of_ok {value : α} (h : action.on state = (.ok value, between)) :
    on (action >>= next) state = (next value).on between := by
  unfold on at h ⊢
  rw [ExceptT.run_bind, StateT.run_bind, h]
  rfl

theorem on_bind_of_error {fault : Fault} (h : action.on state = (.error fault, between)) :
    on (action >>= next) state = (.error fault, between) := by
  unfold on at h ⊢
  rw [ExceptT.run_bind, StateT.run_bind, h]
  rfl

end Action

/-! ## Asking for ids one after another -/

/-- Makes ids canonical, or refuses to. -/
abbrev Canonicalizer (State : Type) : Type :=
  String → Action State String

namespace Canonicalizer

/-- The same canonicalization, which also notes the ids that it is asked for. -/
def recorded (canonicalize : Canonicalizer State) : Canonicalizer (State × List String) :=
  fun id => ExceptT.mk fun (state, asked) =>
    let (outcome, later) := (canonicalize id).on state
    (outcome, later, asked ++ [id])

variable (canonicalize : Canonicalizer State)

/-- From one state to another, each id is answered by a canonical one. -/
inductive Answers : State → List String → List String → State → Prop
  | nil {state : State} : Answers state [] [] state
  | cons {state between later : State} {id canonical : String} {ids canonicals : List String}
      (hid : (canonicalize id).on state = (.ok canonical, between))
      (hrest : Answers between ids canonicals later) :
      Answers state (id :: ids) (canonical :: canonicals) later

/-- The last of the ids that were asked for is refused, and those in front of it were
answered. -/
def Refuses (state : State) (ids asked : List String) (fault : Fault) (later : State) : Prop :=
  ∃ front id back canonicals between, ids = front ++ id :: back ∧ asked = front ++ [id]
    ∧ canonicalize.Answers state front canonicals between
    ∧ (canonicalize id).on between = (.error fault, later)

variable {canonicalize} {state between later : State} {ids others canonicals asked : List String}
  {fault : Fault}

theorem Refuses.cons {id canonical : String}
    (hid : (canonicalize id).on state = (.ok canonical, between))
    (h : canonicalize.Refuses between ids asked fault later) :
    canonicalize.Refuses state (id :: ids) (id :: asked) fault later := by
  obtain ⟨front, refused, back, canonicals, last, rfl, rfl, hfront, hrefused⟩ := h
  exact ⟨id :: front, refused, back, canonical :: canonicals, last, rfl, rfl,
    .cons hid hfront, hrefused⟩

theorem answers_or_refuses (canonicalize : Canonicalizer State) (state : State)
    (ids : List String) :
    (∃ canonicals later, canonicalize.Answers state ids canonicals later)
      ∨ ∃ asked fault later, canonicalize.Refuses state ids asked fault later := by
  induction ids generalizing state with
  | nil => exact .inl ⟨[], state, .nil⟩
  | cons id rest ih =>
      cases hid : (canonicalize id).on state with
      | mk outcome between =>
          cases outcome with
          | error fault =>
              exact .inr ⟨[id], fault, between, [], id, rest, [], state, rfl, rfl, .nil, hid⟩
          | ok canonical =>
              rcases ih between with ⟨canonicals, later, hrest⟩ | ⟨asked, fault, later, hrest⟩
              · exact .inl ⟨canonical :: canonicals, later, .cons hid hrest⟩
              · exact .inr ⟨id :: asked, fault, later, hrest.cons hid⟩

theorem Refuses.append (h : canonicalize.Refuses state ids asked fault later) :
    canonicalize.Refuses state (ids ++ others) asked fault later := by
  obtain ⟨front, id, back, canonicals, between, rfl, hasked, hfront, hid⟩ := h
  exact ⟨front, id, back ++ others, canonicals, between, by simp, hasked, hfront, hid⟩

theorem Answers.append_refuses (h : canonicalize.Answers state ids canonicals between)
    (hothers : canonicalize.Refuses between others asked fault later) :
    canonicalize.Refuses state (ids ++ others) (ids ++ asked) fault later := by
  induction h with
  | nil => exact hothers
  | cons hid _ ih => exact (ih hothers).cons hid

theorem Answers.ne_nil (h : canonicalize.Answers state ids canonicals later) (hids : ids ≠ []) :
    canonicals ≠ [] := by
  cases h with
  | nil => exact absurd rfl hids
  | cons _ _ => exact List.cons_ne_nil _ _

/-! ### What is noted -/

theorem on_recorded {id : String} {outcome : Outcome String} (before : List String)
    (h : (canonicalize id).on state = (outcome, later)) :
    (canonicalize.recorded id).on (state, before) = (outcome, later, before ++ [id]) := by
  change (((canonicalize id).on state).1, ((canonicalize id).on state).2, before ++ [id]) = _
  rw [h]

theorem Answers.recorded (h : canonicalize.Answers state ids canonicals later)
    (before : List String) :
    canonicalize.recorded.Answers (state, before) ids canonicals (later, before ++ ids) := by
  induction h generalizing before with
  | nil =>
      rw [List.append_nil]
      exact .nil
  | @cons _ _ _ id _ _ _ hid _ ih =>
      have hrest := ih (before ++ [id])
      rw [List.append_assoc] at hrest
      exact .cons (on_recorded before hid) hrest

theorem Refuses.recorded (h : canonicalize.Refuses state ids asked fault later)
    (before : List String) :
    canonicalize.recorded.Refuses (state, before) ids asked fault (later, before ++ asked) := by
  obtain ⟨front, id, back, canonicals, between, hids, rfl, hfront, hid⟩ := h
  refine ⟨front, id, back, canonicals, (between, before ++ front), hids, rfl,
    hfront.recorded before, ?_⟩
  rw [on_recorded _ hid, List.append_assoc]

/-! ### Asking is a `mapM` -/

theorem Answers.on_mapM (h : canonicalize.Answers state ids canonicals later) :
    Action.on (ids.mapM canonicalize) state = (.ok canonicals, later) := by
  induction h with
  | nil => rfl
  | cons hid _ ih =>
      rw [List.mapM_cons, Action.on_bind_of_ok hid, Action.on_bind_of_ok ih]
      rfl

theorem Refuses.on_mapM (h : canonicalize.Refuses state ids asked fault later) :
    Action.on (ids.mapM canonicalize) state = (.error fault, later) := by
  obtain ⟨front, id, back, canonicals, between, rfl, -, hfront, hid⟩ := h
  rw [List.mapM_append, Action.on_bind_of_ok hfront.on_mapM, List.mapM_cons]
  -- The error passes the two binds that are left: that of the id, and that of what is behind.
  exact Action.on_bind_of_error (Action.on_bind_of_error hid)

end Canonicalizer

/-! ## Checking the entries -/

namespace Selector

/-- A module entry that stands for no id. -/
def blank (entry : Option String) : Bool :=
  entry.all (· = "")

theorem checkModules_eq (entries : List (Option String)) (index : Nat) :
    checkModules index entries =
      match entries.findIdx? blank with
      | some bad => .error (.moduleEntryEmpty (index + bad))
      | none => .ok (entries.filterMap id) := by
  induction entries generalizing index with
  | nil => rfl
  | cons entry rest ih =>
      rw [List.findIdx?_cons]
      cases entry with
      | none => rfl
      | some id =>
          by_cases hid : id = ""
          · simp [checkModules, blank, hid]
          · have hgood : blank (some id) = false := by simp [blank, hid]
            rw [hgood, checkModules, if_neg hid, ih (index + 1)]
            cases rest.findIdx? blank with
            | none => rfl
            | some bad =>
                have hshift : index + 1 + bad = index + (bad + 1) := by omega
                exact congrArg (fun found => Except.error (Fault.moduleEntryEmpty found)) hshift

theorem checkAnnotations_eq (ids : List String) (index : Nat) :
    checkAnnotations index ids =
      match ids.findIdx? (· = "") with
      | some bad => .error (.annotationEntryEmpty (index + bad))
      | none => .ok () := by
  induction ids generalizing index with
  | nil => rfl
  | cons id rest ih =>
      rw [List.findIdx?_cons]
      by_cases hid : id = ""
      · simp [checkAnnotations, hid]
      · rw [checkAnnotations, if_neg hid, ih (index + 1)]
        simp only [hid, decide_false]
        cases rest.findIdx? (· = "") with
        | none => rfl
        | some bad =>
            have hshift : index + 1 + bad = index + (bad + 1) := by omega
            exact congrArg (fun found => Except.error (Fault.annotationEntryEmpty found)) hshift

theorem check_of_modules {selector : Selector} (h : selector.modules ≠ []) :
    selector.check = (do
      let ids ← checkModules 0 selector.modules
      checkAnnotations 0 (Accepted.listed selector.annotationIds)
      pure ids) := by
  rcases selector with ⟨modules, dimensions, annotationIds⟩
  cases modules with
  | nil => exact absurd rfl h
  | cons entry rest => cases annotationIds <;> rfl

variable {selector : Selector} {bad : Nat}

theorem check_of_blank (h : selector.modules.findIdx? blank = some bad) :
    selector.check = .error (.moduleEntryEmpty bad) := by
  have hmodules : selector.modules ≠ [] := by
    intro hnil
    rw [hnil] at h
    cases h
  rw [check_of_modules hmodules, checkModules_eq, h]
  simp only [Nat.zero_add]
  rfl

theorem check_of_empty (hmodules : selector.modules ≠ [])
    (hgood : selector.modules.findIdx? blank = none)
    (h : (Accepted.listed selector.annotationIds).findIdx? (· = "") = some bad) :
    selector.check = .error (.annotationEntryEmpty bad) := by
  rw [check_of_modules hmodules, checkModules_eq, hgood, checkAnnotations_eq, h]
  simp only [Nat.zero_add]
  rfl

theorem check_of_good (hmodules : selector.modules ≠ [])
    (hgood : selector.modules.findIdx? blank = none)
    (h : (Accepted.listed selector.annotationIds).findIdx? (· = "") = none) :
    ∃ ids, selector.check = .ok ids := by
  rw [check_of_modules hmodules, checkModules_eq, hgood, checkAnnotations_eq, h]
  exact ⟨_, rfl⟩

/-! ## Criteria -/

variable {canonicalize : Canonicalizer State} {state between later : State} {fault : Fault}
  {ids modules annotations asked : List String}

theorem on_criteria_of_flawed (h : selector.check = .error fault) :
    Action.on (selector.criteria canonicalize) state = (.error fault, state) := by
  rw [criteria, h]
  exact Action.on_bind_of_error (Action.on_lift _ state)

theorem on_canonicalAnnotations (written : Option Accepted)
    (h : canonicalize.Answers state (Accepted.listed written) annotations later) :
    Action.on (canonicalAnnotations canonicalize written) state
      = (.ok (written.map fun _ => ⟨annotations⟩), later) := by
  cases written with
  | none =>
      cases h
      rfl
  | some accepted =>
      have hvalues : Action.on (accepted.values.mapM canonicalize) state = _ := h.on_mapM
      rw [canonicalAnnotations, Action.on_bind_of_ok hvalues]
      rfl

theorem on_canonicalAnnotations_of_refuses (written : Option Accepted)
    (h : canonicalize.Refuses state (Accepted.listed written) asked fault later) :
    Action.on (canonicalAnnotations canonicalize written) state = (.error fault, later) := by
  cases written with
  | none =>
      obtain ⟨front, id, back, _, _, hids, -⟩ := h
      exact absurd hids.symm (by simp [Accepted.listed])
  | some accepted =>
      rw [canonicalAnnotations]
      exact Action.on_bind_of_error h.on_mapM

theorem on_criteria_of_answers (hcheck : selector.check = .ok ids)
    (hmodules : canonicalize.Answers state ids modules between)
    (hannotations : canonicalize.Answers between (Accepted.listed selector.annotationIds)
      annotations later) :
    Action.on (selector.criteria canonicalize) state
      = (.ok ⟨modules.eraseDups, selector.dimensions,
          selector.annotationIds.map fun _ => ⟨annotations⟩⟩, later) := by
  rw [criteria, hcheck, Action.on_bind_of_ok (Action.on_lift _ state),
    Action.on_bind_of_ok hmodules.on_mapM,
    Action.on_bind_of_ok (on_canonicalAnnotations _ hannotations)]
  rfl

theorem on_criteria_of_refused_module (hcheck : selector.check = .ok ids)
    (h : canonicalize.Refuses state ids asked fault later) :
    Action.on (selector.criteria canonicalize) state = (.error fault, later) := by
  rw [criteria, hcheck, Action.on_bind_of_ok (Action.on_lift _ state)]
  exact Action.on_bind_of_error h.on_mapM

theorem on_criteria_of_refused_annotation (hcheck : selector.check = .ok ids)
    (hmodules : canonicalize.Answers state ids modules between)
    (h : canonicalize.Refuses between (Accepted.listed selector.annotationIds) asked fault later) :
    Action.on (selector.criteria canonicalize) state = (.error fault, later) := by
  rw [criteria, hcheck, Action.on_bind_of_ok (Action.on_lift _ state),
    Action.on_bind_of_ok hmodules.on_mapM]
  exact Action.on_bind_of_error (on_canonicalAnnotations_of_refuses _ h)

/-- Normalizing a selector ends so: with an outcome, a state of the canonicalization, and
the ids that this was asked for. -/
structure Ends (selector : Selector) (canonicalize : Canonicalizer State) (state : State)
    (outcome : Outcome Criteria) (later : State) (asked : List String) : Prop where
  run : Action.on (selector.criteria canonicalize) state = (outcome, later)
  noted : Action.on (selector.criteria canonicalize.recorded) (state, [])
    = (outcome, later, asked)

/-- The criteria of a selector whose modules and annotations have these canonical ids. -/
structure Normalized (selector : Selector) (modules annotations : List String)
    (criteria : Criteria) : Prop where
  modules : FirstMentions modules criteria.modules
  nonempty : criteria.modules ≠ []
  nodup : criteria.modules.Nodup
  annotations : criteria.annotationIds = selector.annotationIds.map fun _ => ⟨annotations⟩
  dimensions : criteria.dimensions = selector.dimensions

theorem Ends.of_flawed (h : selector.check = .error fault) :
    selector.Ends canonicalize state (.error fault) state [] :=
  ⟨on_criteria_of_flawed h, on_criteria_of_flawed h⟩

theorem normalized_eraseDups (selector : Selector) (annotations : List String)
    (h : modules ≠ []) :
    selector.Normalized modules annotations ⟨modules.eraseDups, selector.dimensions,
      selector.annotationIds.map fun _ => ⟨annotations⟩⟩ where
  modules := firstMentions_eraseDups modules
  nonempty := by
    obtain ⟨id, hmem⟩ := List.exists_mem_of_ne_nil _ h
    exact List.ne_nil_of_mem (List.mem_eraseDups.mpr hmem)
  nodup := nodup_eraseDups modules
  annotations := rfl
  dimensions := rfl

theorem ends_of_check (hcheck : selector.check = .ok ids) (hids : ids ≠ [])
    (canonicalize : Canonicalizer State) (state : State) :
    let annotated := Accepted.listed selector.annotationIds
    (∃ asked fault later, canonicalize.Refuses state (ids ++ annotated) asked fault later
        ∧ selector.Ends canonicalize state (.error fault) later asked)
      ∨ ∃ modules between annotations later criteria,
        canonicalize.Answers state ids modules between
        ∧ canonicalize.Answers between annotated annotations later
        ∧ selector.Normalized modules annotations criteria
        ∧ selector.Ends canonicalize state (.ok criteria) later (ids ++ annotated) := by
  intro annotated
  -- In each case the same lemma gives the run and, for the recorded canonicalization, the ids.
  rcases canonicalize.answers_or_refuses state ids with
    ⟨modules, between, hmodules⟩ | ⟨asked, fault, later, h⟩
  · rcases canonicalize.answers_or_refuses between annotated with
      ⟨annotations, later, hannotations⟩ | ⟨asked, fault, later, h⟩
    · right
      have hnoted := on_criteria_of_answers hcheck (hmodules.recorded [])
        (hannotations.recorded ids)
      exact ⟨modules, between, annotations, later, _, hmodules, hannotations,
        normalized_eraseDups selector annotations (hmodules.ne_nil hids),
        on_criteria_of_answers hcheck hmodules hannotations, hnoted⟩
    · left
      have hnoted := on_criteria_of_refused_annotation hcheck (hmodules.recorded [])
        (h.recorded ids)
      exact ⟨ids ++ asked, fault, later, hmodules.append_refuses h,
        on_criteria_of_refused_annotation hcheck hmodules h, hnoted⟩
  · left
    exact ⟨asked, fault, later, h.append, on_criteria_of_refused_module hcheck h,
      on_criteria_of_refused_module hcheck (h.recorded [])⟩

/-- A selector is checked before canonicalization is asked for anything. If it is good, its
ids are asked for in order, up to the first that is refused. -/
theorem checked_before_asked (selector : Selector) (canonicalize : Canonicalizer State)
    (state : State) :
    let annotated := Accepted.listed selector.annotationIds
    match selector.modules, selector.modules.findIdx? blank, annotated.findIdx? (· = "") with
    | [], _, _ =>
      selector.Ends canonicalize state (.error .selectorWithoutModule) state []
    | _, some bad, _ =>
      selector.Ends canonicalize state (.error (.moduleEntryEmpty bad)) state []
    | _, none, some bad =>
      selector.Ends canonicalize state (.error (.annotationEntryEmpty bad)) state []
    | _, none, none => ∃ ids, selector.modules = ids.map some ∧
      ((∃ asked fault later, canonicalize.Refuses state (ids ++ annotated) asked fault later
          ∧ selector.Ends canonicalize state (.error fault) later asked)
        ∨ ∃ modules between annotations later criteria,
          canonicalize.Answers state ids modules between
          ∧ canonicalize.Answers between annotated annotations later
          ∧ selector.Normalized modules annotations criteria
          ∧ selector.Ends canonicalize state (.ok criteria) later (ids ++ annotated)) := by
  intro annotated
  split
  · next hmodules =>
      have hcheck : selector.check = .error .selectorWithoutModule := by rw [check, hmodules]
      exact .of_flawed hcheck
  · next hblank _ => exact .of_flawed (check_of_blank hblank)
  · next hblank hempty hmodules => exact .of_flawed (check_of_empty hmodules hblank hempty)
  · next hblank hempty hmodules =>
      obtain ⟨ids, hcheck⟩ := check_of_good hmodules hblank hempty
      have hids : selector.modules = ids.map some := modules_of_check hcheck
      refine ⟨ids, hids, ends_of_check hcheck ?_ canonicalize state⟩
      rintro rfl
      exact hmodules hids

/-- Two ids that become equal are both asked for, and so is the one that is refused. -/
example :
    let selector : Selector :=
      { modules := [some "alias", some "type"], annotationIds := some ⟨["label", "other"]⟩ }
    let canonicalize : Canonicalizer Nat := fun _ => do
      let count ← get
      set (count + 1)
      if count = 2 then throw .aliasEmpty else pure ("type" : String)
    Action.on (selector.criteria canonicalize.recorded) (0, [])
      = (.error .aliasEmpty, 3, ["alias", "type", "label"]) :=
  rfl

end Selector

end Strata
