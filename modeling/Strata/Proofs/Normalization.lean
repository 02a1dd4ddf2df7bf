import Strata.Proofs.Outcomes
import Strata.Rule

/-!
# What normalization promises of a rule

A written rule is refused if its priority is no number, and its module ids are
thinned to their first occurrences after they have been made canonical. So a
valid rule has a priority that the numeric comparisons can place, and it selects
each of its modules once, whatever ids have become equal on the way. The store
relies on the second, the placement of external entries on the first.

Every id that a valid rule mentions was made from a reference that was written, and
every reference that was written was made into one: `Mentions` says so of modules,
annotations and dependencies alike.
-/

namespace Strata

/-- The values, none if they are absent. -/
def Accepted.listed : Option Accepted → List String
  | none => []
  | some accepted => accepted.values

/-- The ids without repetitions, in the order in which they are first mentioned. -/
structure FirstMentions (ids kept : List String) : Prop where
  mem_iff : ∀ id, id ∈ kept ↔ id ∈ ids
  ordered : kept.Pairwise fun x y => ids.idxOf x < ids.idxOf y

theorem FirstMentions.nodup {ids kept : List String} (h : FirstMentions ids kept) :
    kept.Nodup := by
  refine h.ordered.imp fun hlt heq => ?_
  subst heq
  exact Nat.lt_irrefl _ hlt

theorem FirstMentions.concat {ids kept : List String} (h : FirstMentions ids kept)
    (last : String) :
    FirstMentions (ids ++ [last]) (if last ∈ ids then kept else kept ++ [last]) := by
  have hfront : kept.Pairwise fun x y => (ids ++ [last]).idxOf x < (ids ++ [last]).idxOf y := by
    refine h.ordered.imp_of_mem fun hx hy hlt => ?_
    rwa [List.idxOf_append, List.idxOf_append, if_pos ((h.mem_iff _).mp hx),
      if_pos ((h.mem_iff _).mp hy)]
  split
  · next hmem =>
      refine ⟨fun id => ?_, hfront⟩
      rw [h.mem_iff, List.mem_append, List.mem_singleton]
      constructor
      · exact .inl
      · rintro (hid | rfl)
        · exact hid
        · exact hmem
  · next hnew =>
      refine ⟨fun id => by simp only [List.mem_append, h.mem_iff], ?_⟩
      refine List.pairwise_append.mpr ⟨hfront, List.pairwise_singleton _ _, ?_⟩
      intro x hx y hy
      have hmem := (h.mem_iff x).mp hx
      rw [List.mem_singleton.mp hy, List.idxOf_append, List.idxOf_append, if_pos hmem,
        if_neg hnew]
      exact Nat.lt_add_left _ (List.idxOf_lt_length_of_mem hmem)

theorem eraseDups_concat (ids : List String) (last : String) :
    (ids ++ [last]).eraseDups = if last ∈ ids then ids.eraseDups else ids.eraseDups ++ [last] := by
  rw [List.eraseDups_append]
  split
  · next hmem =>
      have hlast : [last].removeAll ids = [] := by simp [List.removeAll, hmem]
      rw [hlast, List.eraseDups_nil, List.append_nil]
  · next hnew =>
      have hlast : [last].removeAll ids = [last] := by simp [List.removeAll, hnew]
      rw [hlast]
      rfl

theorem FirstMentions.append {front : List String} (h : FirstMentions front front.eraseDups)
    (ids : List String) : FirstMentions (front ++ ids) (front ++ ids).eraseDups := by
  induction ids generalizing front with
  | nil => rwa [List.append_nil]
  | cons id rest ih =>
      have hnext := h.concat id
      rw [← eraseDups_concat] at hnext
      rw [List.append_cons]
      exact ih hnext

theorem firstMentions_eraseDups (ids : List String) : FirstMentions ids ids.eraseDups := by
  have hnil : FirstMentions [] [] := ⟨fun _ => Iff.rfl, .nil⟩
  exact hnil.append ids

theorem nodup_eraseDups (ids : List String) : ids.eraseDups.Nodup :=
  (firstMentions_eraseDups ids).nodup

/-- Criteria come of a check, of the module ids made canonical, and of the annotation ids. -/
theorem Selector.of_criteria_eq_ok {selector : Selector} {canonicalize : String → Outcome String}
    {criteria : Criteria} (h : selector.criteria canonicalize = .ok criteria) :
    ∃ ids modules, selector.check = .ok ids ∧ ids.mapM canonicalize = .ok modules
      ∧ criteria.modules = modules.eraseDups
      ∧ canonicalAnnotations canonicalize selector.annotationIds = .ok criteria.annotationIds := by
  obtain ⟨ids, hids, h⟩ := Outcome.bind_eq_ok.mp h
  obtain ⟨modules, hmodules, h⟩ := Outcome.bind_eq_ok.mp h
  obtain ⟨annotationIds, hannotations, h⟩ := Outcome.bind_eq_ok.mp h
  rw [Outcome.lift_self] at hids
  cases h
  exact ⟨ids, modules, hids, hmodules, rfl, hannotations⟩

theorem Selector.nodup_modules {selector : Selector} {canonicalize : String → Outcome String}
    {criteria : Criteria} (h : selector.criteria canonicalize = .ok criteria) :
    criteria.modules.Nodup := by
  obtain ⟨_, modules, -, -, hkept, -⟩ := of_criteria_eq_ok h
  rw [hkept]
  exact nodup_eraseDups modules

/-! ## What a rule is made from -/

namespace RuleSpec

variable {spec : RuleSpec} {canonicalize : String → Outcome String} {contextId : Option String}
  {rule : Rule}

/-- The canonical id of what a reference within a context denotes. -/
def idOf (canonicalize : String → Outcome String) (contextId : Option String)
    (reference : String) : Outcome String := do
  let denoted ← Outcome.lift (Reference.resolve contextId reference)
  canonicalize denoted

/-- The ids of a rule are made from its references, and the rest of it is as written. -/
structure Becomes (spec : RuleSpec) (canonicalize : String → Outcome String)
    (contextId : Option String) (rule : Rule) : Prop where
  isNaN_priority : spec.priority.isNaN = false
  criteria : spec.select.criteria (idOf canonicalize contextId) = .ok rule.criteria
  deps : spec.deps.mapM (idOf canonicalize contextId) = .ok rule.deps
  apply : rule.apply = spec.apply
  context : rule.contextId = contextId
  priority : rule.priority = spec.priority

theorem becomes_of_normalize (h : spec.normalize canonicalize contextId = .ok rule) :
    spec.Becomes canonicalize contextId rule := by
  obtain ⟨_, hpriority, h⟩ := Outcome.bind_eq_ok.mp h
  rw [Outcome.lift_self, checkPriority] at hpriority
  obtain ⟨criteria, hcriteria, h⟩ := Outcome.bind_eq_ok.mp h
  obtain ⟨deps, hdeps, h⟩ := Outcome.bind_eq_ok.mp h
  cases h
  refine ⟨?_, hcriteria, hdeps, rfl, rfl, rfl⟩
  split at hpriority
  · cases hpriority
  · next hnan => simpa using hnan

end RuleSpec

/-- What the cascade relies on in a rule. -/
structure Rule.Valid (rule : Rule) : Prop where
  nodup_modules : rule.criteria.modules.Nodup
  priority : rule.priority.isNaN = false

theorem RuleSpec.valid_of_normalize {spec : RuleSpec} {canonicalize : String → Outcome String}
    {contextId : Option String} {rule : Rule}
    (h : spec.normalize canonicalize contextId = .ok rule) : rule.Valid := by
  have hbecomes := becomes_of_normalize h
  refine ⟨Selector.nodup_modules hbecomes.criteria, ?_⟩
  rw [hbecomes.priority]
  exact hbecomes.isNaN_priority

/-! ## The ids of a rule -/

namespace Selector

variable {selector : Selector} {canonicalize : String → Outcome String} {criteria : Criteria}

theorem entries_of_checkModules {entries : List (Option String)} {index : Nat}
    {ids : List String} (h : checkModules index entries = .ok ids) : entries = ids.map some := by
  induction entries generalizing index ids with
  | nil =>
      cases h
      rfl
  | cons entry rest ih =>
      unfold checkModules at h
      split at h
      · next heq => cases heq
      · cases h
      · next first others heq =>
          cases heq
          split at h
          · cases h
          · obtain ⟨behind, hbehind, h⟩ := Outcome.bind_eq_ok.mp h
            cases h
            rw [List.map_cons, ih hbehind]

/-- The entries of a valid selector are the ids that were checked, none of them null. -/
theorem modules_of_check {ids : List String} (h : selector.check = .ok ids) :
    selector.modules = ids.map some := by
  unfold check at h
  split at h
  · cases h
  · obtain ⟨checked, hchecked, h⟩ := Outcome.bind_eq_ok.mp h
    have hids : checked = ids := by
      dsimp only at h
      split at h
      · exact Except.ok.inj h
      · obtain ⟨_, -, h⟩ := Outcome.bind_eq_ok.mp h
        exact Except.ok.inj h
    rw [← hids]
    exact entries_of_checkModules hchecked

/-- The modules of criteria are what the written module ids are made into. -/
theorem mem_modules_iff (h : selector.criteria canonicalize = .ok criteria) {canonical : String} :
    canonical ∈ criteria.modules ↔
      ∃ reference, some reference ∈ selector.modules ∧ canonicalize reference = .ok canonical := by
  obtain ⟨ids, modules, hids, hmodules, hkept, -⟩ := of_criteria_eq_ok h
  rw [hkept, List.mem_eraseDups, Outcome.mem_iff_of_mapM_eq_ok hmodules, modules_of_check hids]
  simp only [List.mem_map, Option.some.injEq, exists_eq_right]

theorem mem_annotations_iff (h : selector.criteria canonicalize = .ok criteria)
    {canonical : String} :
    canonical ∈ Accepted.listed criteria.annotationIds ↔
      ∃ reference ∈ Accepted.listed selector.annotationIds,
        canonicalize reference = .ok canonical := by
  obtain ⟨_, _, -, -, -, hannotations⟩ := of_criteria_eq_ok h
  cases hwritten : selector.annotationIds with
  | none =>
      rw [hwritten] at hannotations
      rw [← Except.ok.inj hannotations]
      simp [Accepted.listed]
  | some accepted =>
      rw [hwritten] at hannotations
      obtain ⟨values, hvalues, hpure⟩ := Outcome.bind_eq_ok.mp hannotations
      rw [← Except.ok.inj hpure]
      exact Outcome.mem_iff_of_mapM_eq_ok hvalues

end Selector

namespace RuleSpec

variable {spec : RuleSpec} {canonicalize : String → Outcome String} {contextId : Option String}
  {rule : Rule}

/-- A reference within a context stands for the canonical id of what it denotes. -/
def StandsFor (canonicalize : String → Outcome String) (contextId : Option String)
    (reference id : String) : Prop :=
  ∃ denoted, Reference.resolve contextId reference = .ok denoted ∧ canonicalize denoted = .ok id

/-- A rule mentions what the references of its specification stand for, and nothing else. -/
structure Mentions (spec : RuleSpec) (canonicalize : String → Outcome String)
    (contextId : Option String) (rule : Rule) : Prop where
  context : rule.contextId = contextId
  modules : ∀ id, id ∈ rule.criteria.modules ↔ ∃ reference,
    some reference ∈ spec.select.modules ∧ StandsFor canonicalize contextId reference id
  annotations : ∀ id, id ∈ Accepted.listed rule.criteria.annotationIds ↔
    ∃ reference ∈ Accepted.listed spec.select.annotationIds,
      StandsFor canonicalize contextId reference id
  deps : ∀ id, id ∈ rule.deps ↔
    ∃ reference ∈ spec.deps, StandsFor canonicalize contextId reference id

theorem idOf_eq_ok {reference id : String} :
    idOf canonicalize contextId reference = .ok id ↔
      StandsFor canonicalize contextId reference id := by
  rw [idOf, Outcome.lift_self]
  exact Outcome.bind_eq_ok

theorem mentions_of_normalize (h : spec.normalize canonicalize contextId = .ok rule) :
    spec.Mentions canonicalize contextId rule := by
  have hbecomes := becomes_of_normalize h
  refine ⟨hbecomes.context, fun id => ?_, fun id => ?_, fun id => ?_⟩
  · simp only [Selector.mem_modules_iff hbecomes.criteria, idOf_eq_ok]
  · simp only [Selector.mem_annotations_iff hbecomes.criteria, idOf_eq_ok]
  · simp only [Outcome.mem_iff_of_mapM_eq_ok hbecomes.deps, idOf_eq_ok]

/-- A rule selects the canonical ids of what its written references denote. -/
theorem mem_modules_of_normalize (h : spec.normalize canonicalize contextId = .ok rule)
    {reference id canonical : String} (hmem : some reference ∈ spec.select.modules)
    (hid : Reference.resolve contextId reference = .ok id)
    (hcanonical : canonicalize id = .ok canonical) : canonical ∈ rule.criteria.modules :=
  ((mentions_of_normalize h).modules canonical).mpr ⟨reference, hmem, id, hid, hcanonical⟩

/-- A rule depends on the canonical ids of what its written references denote. -/
theorem deps_of_normalize (h : spec.normalize canonicalize contextId = .ok rule) :
    rule.contextId = contextId ∧ ∀ dep ∈ rule.deps, ∃ reference ∈ spec.deps, ∃ id,
      Reference.resolve contextId reference = .ok id ∧ canonicalize id = .ok dep :=
  ⟨(mentions_of_normalize h).context,
    fun dep hdep => ((mentions_of_normalize h).deps dep).mp hdep⟩

end RuleSpec

end Strata
