import Strata.Engine
import Strata.Proofs.Normalization
import Strata.Proofs.Store

/-!
# Runs of registrations

An engine is reached by registering sets one after the other, some of which may
be refused. Making rules valid reads the metadata and nothing else, and nothing
that registration does changes the metadata; so which sets are accepted, and as
which rules, can be said of the engine that the run starts from. `accepted` lists
these rules, and the store of the engine that is reached is theirs: the insertions
of all accepted sets in one go.

A refused set is refused before its first rule is inserted. The registration runs
on a store that outlives a fault, so this is a statement about where the fault
can arise and not about what is kept of a run that failed.
-/

namespace Strata.Engine

/-- The engine after attempts to register sets, one after the other, from no rules. -/
def afterSets (engine : Engine) (sets : List RuleSet) : Engine :=
  sets.foldl (fun engine set => (engine.register set).2) { engine with store := {} }

/-- The rules of the sets that are valid as a whole, in the order of registration. -/
def accepted (engine : Engine) (sets : List RuleSet) : List Rule :=
  sets.flatMap fun set =>
    match engine.normalized set with
    | .ok rules => rules
    | .error _ => []

variable {engine : Engine} {set : RuleSet} {sets : List RuleSet}

/-! ## One set -/

theorem run_forM_insert (rules : List Rule) (store : RuleStore) :
    (rules.forM fun rule => modify fun store => store.insert rule :
      ExceptT Fault (StateM RuleStore) Unit).run store
      = (.ok (), rules.foldl RuleStore.insert store) := by
  induction rules generalizing store with
  | nil => rfl
  | cons first rest ih => exact ih (store.insert first)

theorem register_of_ok {rules : List Rule} (h : engine.normalized set = .ok rules) :
    engine.register set
      = (.ok (), { engine with store := rules.foldl RuleStore.insert engine.store }) := by
  have hrun : (engine.registration set).run engine.store
      = (.ok (), rules.foldl RuleStore.insert engine.store) := by
    rw [registration, h]
    exact run_forM_insert rules engine.store
  rw [register, hrun]

/-- A set that is not valid as a whole is refused, and the engine stays as it is. -/
theorem register_of_error {fault : Fault} (h : engine.normalized set = .error fault) :
    engine.register set = (.error fault, engine) := by
  have hrun : (engine.registration set).run engine.store = (.error fault, engine.store) := by
    rw [registration, h]
    rfl
  rw [register, hrun]

theorem register_isError_iff :
    (∃ fault, (engine.register set).1 = .error fault) ↔
      ∃ fault, engine.normalized set = .error fault := by
  constructor
  · rintro ⟨fault, h⟩
    rcases Outcome.ok_or_error (engine.normalized set) with ⟨rules, hok⟩ | herror
    · rw [register_of_ok hok] at h
      cases h
    · exact herror
  · rintro ⟨fault, h⟩
    exact ⟨fault, by rw [register_of_error h]⟩

/-! ## A run -/

theorem afterSets_eq (engine : Engine) (sets : List RuleSet) :
    engine.afterSets sets
      = { engine with store := (engine.accepted sets).foldl RuleStore.insert {} } := by
  suffices h : ∀ store : RuleStore,
      sets.foldl (fun engine set => (engine.register set).2) { engine with store := store }
        = { engine with store := (engine.accepted sets).foldl RuleStore.insert store } from h {}
  induction sets with
  | nil => intro store; rfl
  | cons set rest ih =>
      intro store
      rw [List.foldl_cons, accepted, List.flatMap_cons, List.foldl_append]
      -- Validity does not depend on the store, so the engine at this point of the
      -- run accepts what the engine at its start accepts.
      have hsame : ({ engine with store := store } : Engine).normalized set
          = engine.normalized set := rfl
      cases hset : engine.normalized set with
      | ok rules =>
          rw [register_of_ok (hsame.trans hset)]
          exact ih (rules.foldl RuleStore.insert store)
      | error fault =>
          rw [register_of_error (hsame.trans hset)]
          exact ih store

theorem metadata_afterSets (engine : Engine) (sets : List RuleSet) :
    (engine.afterSets sets).metadata = engine.metadata := by
  rw [afterSets_eq]

theorem context_afterSets (engine : Engine) (sets : List RuleSet) :
    (engine.afterSets sets).context = engine.context := by
  rw [afterSets_eq]

theorem afterSets_singleton {rules : List Rule} (h : engine.normalized set = .ok rules) :
    engine.afterSets [set] = { engine with store := rules.foldl RuleStore.insert {} } := by
  rw [afterSets_eq, accepted, List.flatMap_singleton, h]

theorem exists_spec_of_mem_accepted {rule : Rule} (h : rule ∈ engine.accepted sets) :
    ∃ set ∈ sets, ∃ spec ∈ set.rules,
      spec.normalize engine.canonicalId set.contextId = .ok rule := by
  obtain ⟨set, hset, hmem⟩ := List.mem_flatMap.mp h
  split at hmem
  · next rules hrules =>
      obtain ⟨spec, hspec, hnormalize⟩ := (Outcome.of_mapM_eq_ok hrules).2 rule hmem
      exact ⟨set, hset, spec, hspec, hnormalize⟩
  · cases hmem

theorem valid_of_mem_accepted {rule : Rule} (h : rule ∈ engine.accepted sets) : rule.Valid := by
  obtain ⟨_, -, _, -, hnormalize⟩ := exists_spec_of_mem_accepted h
  exact RuleSpec.valid_of_normalize hnormalize

/-- The store of an engine that is reached is the index of the accepted rules. -/
theorem holds_afterSets (engine : Engine) (sets : List RuleSet) :
    (engine.afterSets sets).store.Holds (engine.accepted sets) := by
  rw [afterSets_eq]
  exact RuleStore.holds_empty.foldl_insert fun rule hrule =>
    (valid_of_mem_accepted hrule).nodup_modules

/-- Whatever sets an engine has been given, its list for a module is the stable
sort by weight of the accepted rules that select the module. Each stands there
once and has its index among the accepted rules as its ordinal; their number and
the module ids of the index are right; and a set with a rule that is not valid,
wherever it stands, is refused and changes nothing. -/
theorem store_indexes_accepted (engine : Engine) (sets : List RuleSet) :
    (∀ id, (engine.afterSets sets).store.rulesFor id =
      ((numbered (engine.accepted sets)).filter (Registered.selects id)).mergeSort
        Registered.weighsAtMost)
    ∧ (∀ id, (((engine.afterSets sets).store.rulesFor id).map Registered.ordinal).Nodup)
    ∧ (∀ id, ∀ registered ∈ (engine.afterSets sets).store.rulesFor id,
        (engine.accepted sets)[registered.ordinal]? = some registered.rule)
    ∧ (engine.afterSets sets).store.size = (engine.accepted sets).length
    ∧ (engine.afterSets sets).store.moduleIds.Pairwise (· < ·)
    ∧ (∀ id, id ∈ (engine.afterSets sets).store.moduleIds ↔
        ∃ rule ∈ engine.accepted sets, id ∈ rule.criteria.modules)
    ∧ (∀ set : RuleSet,
        ((∃ fault, ((engine.afterSets sets).register set).1 = .error fault) ↔
          ∃ spec ∈ set.rules, ∃ fault,
            spec.normalize engine.canonicalId set.contextId = .error fault)
        ∧ ((∃ fault, ((engine.afterSets sets).register set).1 = .error fault) →
          ((engine.afterSets sets).register set).2 = engine.afterSets sets)) := by
  have h := holds_afterSets engine sets
  have hcanonical : (engine.afterSets sets).canonicalId = engine.canonicalId := by
    rw [afterSets_eq]
    rfl
  refine ⟨h.rulesFor_eq_mergeSort, h.nodup_ordinals,
    fun id registered hmem => getElem?_of_mem_numbered (h.mem_numbered hmem),
    h.size, h.sorted, h.keys, fun set => ⟨?_, fun hrefused => ?_⟩⟩
  · rw [register_isError_iff, normalized, hcanonical]
    exact Outcome.mapM_isError_iff
  · obtain ⟨fault, hfault⟩ := register_isError_iff.mp hrefused
    rw [register_of_error hfault]

end Strata.Engine
