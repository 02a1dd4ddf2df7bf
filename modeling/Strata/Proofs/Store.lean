import Strata.Fields.Sorted
import Strata.Proofs.Priorities
import Strata.Proofs.StableSort
import Strata.RuleStore

/-!
# The store keeps every list in order

The store inserts a rule into several lists, each time at a position found by
halving. The halving is right only on a list that ascends already, so order is
not a consequence of the insertions but what they rely on: `Holds` states it for
all lists at once, together with what is in them, and every insertion hands it
on.

The one fact about numbers is that ordinals are fresh. A new rule has a greater
ordinal than all that are stored, so it ties with none of them: in front of its
position stands what is strictly below it, behind it what is strictly above.

What is in the list of a module follows the rules in the order of registration.
Since no two rules tie, an ascending arrangement of them is the only one; and a
stable sort by priority and specificity, which finds the rules in ascending
ordinals, makes just that arrangement. So the two are equal.
-/

namespace Strata

/-! ## Rules by registration -/

/-- Rules with their indexes as ordinals. -/
def numbered (rules : List Rule) : List Registered :=
  rules.mapIdx fun index rule => ⟨rule, index⟩

namespace Registered

/-- Whether a rule selects a module. -/
def selects (id : String) (registered : Registered) : Bool :=
  registered.rule.criteria.modules.contains id

/-- Priorities first, then specificities; the order of registration has no say. -/
def weighsAtMost (x y : Registered) : Bool :=
  ((Binary64.compareTotal x.rule.priority y.rule.priority).then
    (compare x.rule.criteria.specificity y.rule.criteria.specificity)).isLE

/-- Whether a rule is merged before another. -/
def Before (x y : Registered) : Prop :=
  x.precedence.lt y.precedence = true

variable {x y z : Registered}

theorem weighsAtMost_iff :
    weighsAtMost x y = true ↔
      x.rule.priority.totalKey < y.rule.priority.totalKey
        ∨ x.rule.priority.totalKey = y.rule.priority.totalKey
          ∧ x.rule.criteria.specificity ≤ y.rule.criteria.specificity := by
  rw [weighsAtMost, Ordering.isLE_then_iff_or, Binary64.compareTotal_eq_lt,
    Binary64.compareTotal_eq_eq, Nat.isLE_compare]

theorem before_iff :
    Before x y ↔
      x.rule.priority.totalKey < y.rule.priority.totalKey
        ∨ x.rule.priority.totalKey = y.rule.priority.totalKey
          ∧ (x.rule.criteria.specificity < y.rule.criteria.specificity
            ∨ x.rule.criteria.specificity = y.rule.criteria.specificity
              ∧ x.ordinal < y.ordinal) :=
  Precedence.lt_iff

theorem weighsAtMost_trans (x y z : Registered) (hxy : weighsAtMost x y = true)
    (hyz : weighsAtMost y z = true) : weighsAtMost x z = true := by
  rw [weighsAtMost_iff] at hxy hyz ⊢
  omega

theorem weighsAtMost_total (x y : Registered) :
    (weighsAtMost x y || weighsAtMost y x) = true := by
  rw [Bool.or_eq_true, weighsAtMost_iff, weighsAtMost_iff]
  omega

/-- Sorting by weight what ascends in ordinals sorts by precedence. -/
theorem before_of_stablyBefore
    (h : StablyBefore weighsAtMost (fun x y => x.ordinal < y.ordinal) x y) : Before x y := by
  obtain ⟨hle, htie⟩ := h
  rw [weighsAtMost_iff] at hle htie
  rw [before_iff]
  by_cases hback : y.rule.priority.totalKey < x.rule.priority.totalKey
      ∨ y.rule.priority.totalKey = x.rule.priority.totalKey
        ∧ y.rule.criteria.specificity ≤ x.rule.criteria.specificity
  · have hordinal := htie hback
    omega
  · omega

end Registered

theorem numbered_append (rules : List Rule) (rule : Rule) :
    numbered (rules ++ [rule]) = numbered rules ++ [⟨rule, rules.length⟩] := by
  rw [numbered, List.mapIdx_concat]
  rfl

theorem getElem?_of_mem_numbered {rules : List Rule} {registered : Registered}
    (h : registered ∈ numbered rules) : rules[registered.ordinal]? = some registered.rule := by
  obtain ⟨index, hindex, rfl⟩ := List.mem_mapIdx.mp h
  exact List.getElem?_eq_getElem hindex

theorem mem_numbered_iff {rules : List Rule} {registered : Registered} :
    registered ∈ numbered rules ↔ rules[registered.ordinal]? = some registered.rule := by
  refine ⟨getElem?_of_mem_numbered, fun h => ?_⟩
  obtain ⟨hlt, hrule⟩ := List.getElem?_eq_some_iff.mp h
  exact List.mem_mapIdx.mpr ⟨registered.ordinal, hlt, by rw [hrule]⟩

theorem ordinal_lt_of_mem_numbered {rules : List Rule} {registered : Registered}
    (h : registered ∈ numbered rules) : registered.ordinal < rules.length :=
  (List.getElem?_eq_some_iff.mp (getElem?_of_mem_numbered h)).1

theorem pairwise_ordinal_numbered (rules : List Rule) :
    (numbered rules).Pairwise fun x y => x.ordinal < y.ordinal := by
  rw [List.pairwise_iff_getElem]
  intro i j hi hj hlt
  rw [numbered, List.length_mapIdx] at hi hj
  simpa [numbered] using hlt

namespace RuleStore

/-! ## The position of a new rule -/

/-- Halving finds the boundary of a property that, once it fails, does not hold
again. -/
theorem holds_iff_lt_boundary {holds : Nat → Bool}
    (hdown : ∀ i j, i ≤ j → holds j = true → holds i = true) {low high : Nat}
    (hle : low ≤ high) {i : Nat} (hlow : low ≤ i) (hhigh : i < high) :
    holds i = true ↔ i < boundary holds low high := by
  fun_induction boundary holds low high with
  | case1 low high hlt middle held ih =>
      have hbounds := boundary_bounds holds (show middle + 1 ≤ high by omega)
      by_cases hi : i ≤ middle
      · have hheld := hdown i middle hi held
        exact ⟨fun _ => by omega, fun _ => hheld⟩
      · exact ih (by omega) (by omega) hhigh
  | case2 low high hlt middle failed ih =>
      have hbounds := boundary_bounds holds (show low ≤ middle by omega)
      by_cases hi : i < middle
      · exact ih (by omega) hlow hi
      · have hfailed : ¬ holds i = true := fun hheld =>
          failed (hdown middle i (by omega) hheld)
        exact ⟨fun hheld => absurd hheld hfailed, fun _ => by omega⟩
  | case3 low high hdone => omega

section Place

variable {new : Registered} {rules : List Registered}

theorem staysBefore_iff {i : Nat} :
    staysBefore new rules i = true ↔
      ∃ hi : i < rules.length, rules[i].precedence.le new.precedence = true := by
  rw [staysBefore]
  by_cases hi : i < rules.length
  · simp [hi]
  · simp [hi]

/-- In a list that ascends, the rules that stay before a new one are in front. -/
theorem staysBefore_down (h : rules.Pairwise Registered.Before) (i j : Nat) (hij : i ≤ j)
    (hj : staysBefore new rules j = true) : staysBefore new rules i = true := by
  obtain ⟨hjlen, hle⟩ := staysBefore_iff.mp hj
  have hilen : i < rules.length := by omega
  refine staysBefore_iff.mpr ⟨hilen, ?_⟩
  rcases Nat.lt_or_eq_of_le hij with hlt | rfl
  · have hbefore := List.pairwise_iff_getElem.mp h i j hilen hjlen hlt
    exact Precedence.le_trans (Precedence.le_of_lt hbefore) hle
  · exact hle

theorem staysBefore_iff_lt_position (h : rules.Pairwise Registered.Before) {i : Nat}
    (hi : i < rules.length) : staysBefore new rules i = true ↔ i < position new rules :=
  holds_iff_lt_boundary (staysBefore_down h) (Nat.zero_le _) (Nat.zero_le _) hi

theorem before_new_of_mem_take (h : rules.Pairwise Registered.Before)
    (hfresh : ∀ old ∈ rules, old.ordinal < new.ordinal) {old : Registered}
    (hold : old ∈ rules.take (position new rules)) : old.Before new := by
  obtain ⟨i, hi, rfl⟩ := List.mem_take_iff_getElem.mp hold
  have hilen : i < rules.length := by omega
  have hstays : staysBefore new rules i = true :=
    (staysBefore_iff_lt_position h hilen).mpr (by omega)
  obtain ⟨_, hle⟩ := staysBefore_iff.mp hstays
  exact Precedence.lt_of_le_of_ordinal_lt hle (hfresh _ (List.getElem_mem hilen))

theorem new_before_of_mem_drop (h : rules.Pairwise Registered.Before) {old : Registered}
    (hold : old ∈ rules.drop (position new rules)) : new.Before old := by
  obtain ⟨i, hi, rfl⟩ := List.mem_drop_iff_getElem.mp hold
  refine Precedence.lt_of_not_le fun hle => ?_
  rw [Nat.add_comm] at hi
  have hstays : staysBefore new rules (position new rules + i) = true :=
    staysBefore_iff.mpr ⟨hi, hle⟩
  have hlt := (staysBefore_iff_lt_position h hi).mp hstays
  omega

/-- A new rule is put where the list goes on ascending. -/
theorem pairwise_place (h : rules.Pairwise Registered.Before)
    (hfresh : ∀ old ∈ rules, old.ordinal < new.ordinal) :
    (place new rules).Pairwise Registered.Before := by
  have hfront : ∀ old ∈ rules.take (position new rules), old.Before new :=
    fun old hold => before_new_of_mem_take h hfresh hold
  have hback : ∀ old ∈ rules.drop (position new rules), new.Before old :=
    fun old hold => new_before_of_mem_drop h hold
  refine List.pairwise_append.mpr ⟨h.take, List.pairwise_cons.mpr ⟨hback, h.drop⟩, ?_⟩
  intro x hx y hy
  rcases List.mem_cons.mp hy with rfl | hy
  · exact hfront x hx
  · exact Precedence.lt_trans (hfront x hx) (hback y hy)

end Place

/-! ## One list per module

A rule is put into the lists of its modules one after the other. Its modules are
distinct, so each list takes it once, and every other list stays as it is. -/

section Index

variable {new : Registered}

/-- The list held under a module id. -/
def listOf (byModule : Fields (List Registered)) (id : String) : List Registered :=
  (Fields.get? id byModule).getD []

theorem listOf_index_self (byModule : Fields (List Registered)) (id : String) :
    listOf (index new byModule id) id = place new (listOf byModule id) := by
  rw [listOf, index, Fields.get?_put_self]
  rfl

theorem listOf_index_of_ne (byModule : Fields (List Registered)) {id other : String}
    (hne : other ≠ id) : listOf (index new byModule id) other = listOf byModule other := by
  rw [listOf, index, Fields.get?_put_of_ne hne]
  rfl

theorem listOf_foldl_index {modules : List String} (hnodup : modules.Nodup)
    (byModule : Fields (List Registered)) (id : String) :
    listOf (modules.foldl (index new) byModule) id =
      if id ∈ modules then place new (listOf byModule id) else listOf byModule id := by
  induction modules generalizing byModule with
  | nil => rw [List.foldl_nil, if_neg List.not_mem_nil]
  | cons first rest ih =>
      obtain ⟨hfirst, hrest⟩ := List.nodup_cons.mp hnodup
      rw [List.foldl_cons, ih hrest]
      by_cases hid : id = first
      · subst hid
        rw [if_neg hfirst, if_pos List.mem_cons_self, listOf_index_self]
      · rw [listOf_index_of_ne byModule hid]
        simp only [List.mem_cons, hid, false_or]

theorem mem_keys_foldl_index (modules : List String) (byModule : Fields (List Registered))
    (id : String) :
    id ∈ Fields.keys (modules.foldl (index new) byModule)
      ↔ id ∈ modules ∨ id ∈ Fields.keys byModule := by
  induction modules generalizing byModule with
  | nil => simp
  | cons first rest ih =>
      rw [List.foldl_cons, ih, index, Fields.mem_keys_put, List.mem_cons]
      exact or_left_comm.trans or_assoc.symm

theorem sorted_foldl_index (modules : List String) {byModule : Fields (List Registered)}
    (h : Fields.Sorted byModule) : Fields.Sorted (modules.foldl (index new) byModule) := by
  induction modules generalizing byModule with
  | nil => exact h
  | cons first rest ih => exact ih (Fields.sorted_put h)

end Index

/-! ## The invariant -/

/-- The store is the index of the rules registered so far, every list of it in
ascending order. -/
structure Holds (store : RuleStore) (rules : List Rule) : Prop where
  size : store.size = rules.length
  sorted : Fields.Sorted store.byModule
  keys : ∀ id, id ∈ Fields.keys store.byModule ↔ ∃ rule ∈ rules, id ∈ rule.criteria.modules
  perm : ∀ id, (store.rulesFor id).Perm ((numbered rules).filter (Registered.selects id))
  ascending : ∀ id, (store.rulesFor id).Pairwise Registered.Before

theorem holds_empty : Holds {} [] where
  size := rfl
  sorted := .nil
  keys := fun id => by simp [Fields.keys]
  perm := fun _ => .nil
  ascending := fun _ => .nil

namespace Holds

variable {store : RuleStore} {rules : List Rule} {rule : Rule}

theorem mem_numbered (h : store.Holds rules) {id : String} {registered : Registered}
    (hmem : registered ∈ store.rulesFor id) : registered ∈ numbered rules :=
  (List.mem_filter.mp ((h.perm id).mem_iff.mp hmem)).1

theorem ordinal_lt (h : store.Holds rules) {id : String} {registered : Registered}
    (hmem : registered ∈ store.rulesFor id) : registered.ordinal < store.size := by
  rw [h.size]
  exact ordinal_lt_of_mem_numbered (h.mem_numbered hmem)

theorem mem_rulesFor_iff (h : store.Holds rules) {id : String} {registered : Registered} :
    registered ∈ store.rulesFor id ↔ rules[registered.ordinal]? = some registered.rule
      ∧ id ∈ registered.rule.criteria.modules := by
  rw [(h.perm id).mem_iff, List.mem_filter, mem_numbered_iff, Registered.selects,
    List.contains_iff_mem]

/-- Inserting a rule whose modules are distinct hands the invariant on. -/
theorem insert (h : store.Holds rules) (hnodup : rule.criteria.modules.Nodup) :
    (store.insert rule).Holds (rules ++ [rule]) := by
  have hlist : ∀ id, (store.insert rule).rulesFor id =
      if id ∈ rule.criteria.modules then place ⟨rule, store.size⟩ (store.rulesFor id)
      else store.rulesFor id :=
    listOf_foldl_index hnodup store.byModule
  refine ⟨?_, sorted_foldl_index _ h.sorted, ?_, ?_, ?_⟩
  · rw [RuleStore.insert, h.size, List.length_append, List.length_singleton]
  · intro id
    rw [RuleStore.insert, mem_keys_foldl_index, h.keys id]
    simp only [List.mem_append, List.mem_singleton, or_and_right, exists_or,
      exists_eq_left]
    exact or_comm
  · intro id
    rw [hlist, numbered_append, List.filter_append]
    by_cases hid : id ∈ rule.criteria.modules
    · have hselects : Registered.selects id ⟨rule, rules.length⟩ = true := by
        simpa [Registered.selects] using hid
      rw [if_pos hid, List.filter_cons_of_pos hselects, List.filter_nil, ← h.size]
      exact (place_perm _ _).trans (((h.perm id).cons _).trans
        (List.perm_append_singleton _ _).symm)
    · have hselects : ¬ Registered.selects id ⟨rule, rules.length⟩ = true := by
        simpa [Registered.selects] using hid
      rw [if_neg hid, List.filter_cons_of_neg hselects, List.filter_nil, List.append_nil]
      exact h.perm id
  · intro id
    rw [hlist]
    split
    · exact pairwise_place (h.ascending id) fun old hold => h.ordinal_lt hold
    · exact h.ascending id

/-- A run of insertions hands the invariant on. -/
theorem foldl_insert (h : store.Holds rules) {more : List Rule}
    (hnodup : ∀ rule ∈ more, rule.criteria.modules.Nodup) :
    (more.foldl RuleStore.insert store).Holds (rules ++ more) := by
  induction more generalizing store rules with
  | nil =>
      rw [List.append_nil]
      exact h
  | cons first rest ih =>
      have hfirst := h.insert (hnodup first List.mem_cons_self)
      have hrest := ih hfirst fun rule hrule => hnodup rule (List.mem_cons_of_mem _ hrule)
      rw [List.append_assoc] at hrest
      exact hrest

/-- The list of a module is the stable sort, by weight, of the rules that select it. -/
theorem rulesFor_eq_mergeSort (h : store.Holds rules) (id : String) :
    store.rulesFor id =
      ((numbered rules).filter (Registered.selects id)).mergeSort Registered.weighsAtMost := by
  have hordinals := (pairwise_ordinal_numbered rules).filter (Registered.selects id)
  have hsorted := pairwise_mergeSort_stablyBefore Registered.weighsAtMost_trans
    Registered.weighsAtMost_total hordinals
  have hperm := (h.perm id).trans (List.mergeSort_perm _ Registered.weighsAtMost).symm
  exact hperm.eq_of_pairwise
    (fun _ _ _ _ hxy hyx => absurd hyx (Precedence.lt_asymm hxy))
    (h.ascending id) (hsorted.imp Registered.before_of_stablyBefore)

theorem nodup_ordinals (h : store.Holds rules) (id : String) :
    ((store.rulesFor id).map Registered.ordinal).Nodup := by
  have hordinals := (pairwise_ordinal_numbered rules).filter (Registered.selects id)
  have hdistinct : (((numbered rules).filter (Registered.selects id)).map
      Registered.ordinal).Nodup :=
    List.pairwise_map.mpr (hordinals.imp fun hlt => Nat.ne_of_lt hlt)
  exact ((h.perm id).map Registered.ordinal).nodup_iff.mpr hdistinct

end Holds

end RuleStore

end Strata
