import Mathlib
import Strata.Proofs.Normalization
import Strata.Proofs.Plans

/-!
# Widening a context, narrowing a rule

A rule answers if each of its constraints is met by some value of the context. So more values
in the context can only make more rules answer, and since the rules of a chain are found by
leaving out those that do not answer, what was found before is found again, in the same
order. A dimension that is absent from a context meets no constraint, as one without values.

In a rule the two differ: a dimension that is absent is not constrained, and one without
values is, by a constraint that nothing meets. A narrower rule constrains at least the same
dimensions, by fewer values, and is at least as specific.

Values only ever count as members of their list. Their order and their repetitions tell
nothing, neither in a rule nor in a context.
-/

namespace Strata

namespace Accepted

/-- Both are present or both are absent, and they have the same values. -/
structure Alike (accepted other : Option Accepted) : Prop where
  isSome_eq : accepted.isSome = other.isSome
  mem_iff : ∀ value, value ∈ listed accepted ↔ value ∈ listed other

theorem Alike.refl (accepted : Option Accepted) : Alike accepted accepted :=
  ⟨rfl, fun _ => Iff.rfl⟩

theorem Alike.symm {accepted other : Option Accepted} (h : Alike accepted other) :
    Alike other accepted :=
  ⟨h.isSome_eq.symm, fun value => (h.mem_iff value).symm⟩

theorem contains_iff {accepted : Accepted} {value : String} :
    accepted.contains value = true ↔ value ∈ accepted.values := by
  simp [contains]

theorem intersects_iff {accepted other : Accepted} :
    accepted.intersects other = true ↔ ∃ value ∈ accepted.values, value ∈ other.values := by
  simp only [intersects, List.any_eq_true, contains_iff, and_comm]

end Accepted

/-- Every value of a context is one of another context too. -/
def Context.Within (narrow wide : Context) : Prop :=
  ∀ dimension, Accepted.listed (narrow.get dimension) ⊆ Accepted.listed (wide.get dimension)

/-- The same values in each dimension, but for their order and repetitions. -/
def Context.Alike (context other : Context) : Prop :=
  context.Within other ∧ other.Within context

namespace Criteria

/-- Every dimension that a rule constrains is constrained by a narrower one, by fewer values;
their annotations are the same. -/
structure Narrows (narrow broad : Criteria) : Prop where
  annotations : Accepted.Alike narrow.annotationIds broad.annotationIds
  constrained : ∀ dimension accepted, broad.dimensions.get dimension = some accepted →
    ∃ fewer, narrow.dimensions.get dimension = some fewer ∧ fewer.values ⊆ accepted.values

/-- The same annotations and constraints, but for the order of values and repetitions. -/
structure Alike (criteria other : Criteria) : Prop where
  annotations : Accepted.Alike criteria.annotationIds other.annotationIds
  dimensions : ∀ dimension,
    Accepted.Alike (criteria.dimensions.get dimension) (other.dimensions.get dimension)

variable {narrow broad criteria other : Criteria}

theorem Alike.symm (h : criteria.Alike other) : other.Alike criteria :=
  ⟨h.annotations.symm, fun dimension => (h.dimensions dimension).symm⟩

theorem Alike.narrows (h : criteria.Alike other) : criteria.Narrows other := by
  refine ⟨h.annotations, fun dimension accepted haccepted => ?_⟩
  obtain ⟨hisSome, hmem⟩ := h.dimensions dimension
  rw [haccepted] at hisSome hmem
  obtain ⟨fewer, hfewer⟩ := Option.isSome_iff_exists.mp hisSome
  rw [hfewer] at hmem
  exact ⟨fewer, hfewer, fun value => (hmem value).mp⟩

/-! ## Answers -/

theorem annotationMatches_iff {ids : Option Accepted} {requested : Option String} :
    annotationMatches ids requested = true ↔ ids.isSome = requested.isSome
      ∧ ∀ id, requested = some id → id ∈ Accepted.listed ids := by
  cases ids <;> cases requested <;> simp [annotationMatches, Accepted.listed, Accepted.contains_iff]

theorem dimensionMatches_iff {constraint actual : Option Accepted} :
    dimensionMatches constraint actual = true ↔ ∀ accepted, constraint = some accepted →
      ∃ value ∈ accepted.values, value ∈ Accepted.listed actual := by
  cases constraint <;> cases actual <;>
    simp [dimensionMatches, Accepted.listed, Accepted.intersects_iff]

theorem answers_iff {request : Request} :
    criteria.answers request = true ↔
      annotationMatches criteria.annotationIds request.annotationId = true
        ∧ ∀ dimension, dimensionMatches (criteria.dimensions.get dimension)
          (request.context.get dimension) = true := by
  rw [answers, Bool.and_eq_true, List.all_eq_true]
  exact and_congr_right fun _ =>
    ⟨fun h dimension => h dimension (Dimension.mem_all dimension), fun h dimension _ => h dimension⟩

theorem answers_of_within {narrow wide : Context} (h : narrow.Within wide)
    {annotationId : Option String} (hanswers : criteria.answers ⟨narrow, annotationId⟩ = true) :
    criteria.answers ⟨wide, annotationId⟩ = true := by
  obtain ⟨hids, hdimensions⟩ := answers_iff.mp hanswers
  refine answers_iff.mpr ⟨hids, fun dimension => dimensionMatches_iff.mpr ?_⟩
  intro accepted haccepted
  obtain ⟨value, hvalue, hactual⟩ :=
    dimensionMatches_iff.mp (hdimensions dimension) accepted haccepted
  exact ⟨value, hvalue, h dimension hactual⟩

theorem Narrows.answers (h : narrow.Narrows broad) {request : Request}
    (hanswers : narrow.answers request = true) : broad.answers request = true := by
  obtain ⟨hids, hdimensions⟩ := answers_iff.mp hanswers
  obtain ⟨hpresent, hrequested⟩ := annotationMatches_iff.mp hids
  refine answers_iff.mpr ⟨annotationMatches_iff.mpr ⟨?_, fun id hid => ?_⟩,
    fun dimension => dimensionMatches_iff.mpr fun accepted haccepted => ?_⟩
  · exact h.annotations.isSome_eq.symm.trans hpresent
  · exact (h.annotations.mem_iff id).mp (hrequested id hid)
  · obtain ⟨fewer, hfewer, hsubset⟩ := h.constrained dimension accepted haccepted
    obtain ⟨value, hvalue, hactual⟩ :=
      dimensionMatches_iff.mp (hdimensions dimension) fewer hfewer
    exact ⟨value, hsubset hvalue, hactual⟩

/-! ## Specificity -/

theorem specificity_eq_sum (criteria : Criteria) :
    criteria.specificity = ((Dimension.all.filter fun dimension =>
      (criteria.dimensions.get dimension).isSome).map Dimension.weight).sum := by
  rw [specificity, List.sum, List.foldr_map]

theorem Narrows.specificity_le (h : narrow.Narrows broad) :
    broad.specificity ≤ narrow.specificity := by
  have hconstrained : ∀ dimension, (broad.dimensions.get dimension).isSome →
      (narrow.dimensions.get dimension).isSome := by
    intro dimension hbroad
    obtain ⟨accepted, haccepted⟩ := Option.isSome_iff_exists.mp hbroad
    obtain ⟨fewer, hfewer, -⟩ := h.constrained dimension accepted haccepted
    exact Option.isSome_iff_exists.mpr ⟨fewer, hfewer⟩
  rw [specificity_eq_sum, specificity_eq_sum]
  exact ((List.monotone_filter_right _ hconstrained).map _).sum_le_sum fun _ _ => Nat.zero_le _

/-! ## Order and repetitions -/

theorem Alike.answers_eq (h : criteria.Alike other) {context actual : Context}
    (hcontext : context.Alike actual) (annotationId : Option String) :
    criteria.answers ⟨context, annotationId⟩ = other.answers ⟨actual, annotationId⟩ := by
  rw [Bool.eq_iff_iff]
  constructor
  · intro hanswers
    exact answers_of_within hcontext.1 (h.narrows.answers hanswers)
  · intro hanswers
    exact answers_of_within hcontext.2 (h.symm.narrows.answers hanswers)

theorem Alike.specificity_eq (h : criteria.Alike other) :
    criteria.specificity = other.specificity :=
  Nat.le_antisymm h.symm.narrows.specificity_le h.narrows.specificity_le

end Criteria

/-! ## Rules that are found -/

/-- The same place among the rules of a module, with criteria that are alike. -/
structure Registered.Alike (x y : Registered) : Prop where
  criteria : x.rule.criteria.Alike y.rule.criteria
  ordinal : x.ordinal = y.ordinal

namespace Engine

variable {engine other : Engine} {narrow wide context actual : Context}

theorem matching_sublist (h : narrow.Within wide) (annotationId : Option String) (id : String) :
    (engine.matching ⟨narrow, annotationId⟩ id).Sublist
      (engine.matching ⟨wide, annotationId⟩ id) := by
  have hanswers : ∀ registered : Registered,
      registered.rule.criteria.answers ⟨narrow, annotationId⟩ →
        registered.rule.criteria.answers ⟨wide, annotationId⟩ :=
    fun _ => Criteria.answers_of_within h
  exact (List.monotone_filter_right (engine.store.rulesFor id) hanswers).map _

/-- The rules that are found along a chain of modules. -/
def found (engine : Engine) (context : Context) (annotationId : Option String)
    (chain : List String) : List (String × Registered) :=
  chain.flatMap (engine.matching ⟨context, annotationId⟩)

theorem found_sublist (h : narrow.Within wide) (annotationId : Option String)
    (chain : List String) :
    (engine.found narrow annotationId chain).Sublist (engine.found wide annotationId chain) :=
  .flatMap_right chain fun id _ => matching_sublist h annotationId id

/-- Of a plan, the rules alone depend on the context. -/
theorem plan_context (engine : Engine) (context : Context) (query : Query) :
    ({ engine with context } : Engine).plan query
      = (fun plan => { plan with rules := engine.found context plan.annotationId plan.chain })
        <$> engine.plan query := by
  rw [plan, plan]
  simp only [map_bind, map_pure]
  rfl

theorem plan_of_within (h : narrow.Within wide) {query : Query} {plan : Plan}
    (hplan : ({ engine with context := narrow } : Engine).plan query = .ok plan) :
    ∃ rules, ({ engine with context := wide } : Engine).plan query = .ok { plan with rules }
      ∧ plan.rules.Sublist rules := by
  rw [plan_context] at hplan
  obtain ⟨common, hcommon, rfl⟩ := Outcome.map_eq_ok.mp hplan
  refine ⟨_, ?_, found_sublist h common.annotationId common.chain⟩
  rw [plan_context, hcommon]
  rfl

theorem found_eq (h : context.Alike actual) (annotationId : Option String)
    (chain : List String) :
    engine.found context annotationId chain = engine.found actual annotationId chain :=
  (found_sublist h.1 annotationId chain).antisymm (found_sublist h.2 annotationId chain)

/-- The stores hold the same rules under each id, but for the order of values and
repetitions. -/
def StoredAlike (engine other : Engine) : Prop :=
  ∀ id, List.Forall₂ Registered.Alike (engine.store.rulesFor id) (other.store.rulesFor id)

theorem found_alike (hstores : engine.StoredAlike other) (h : context.Alike actual)
    (annotationId : Option String) (chain : List String) :
    List.Forall₂ (fun x y => x.1 = y.1 ∧ x.2.Alike y.2)
      (engine.found context annotationId chain) (other.found actual annotationId chain) := by
  -- Each of the operations that find rules carries a relation on items over to its lists.
  refine List.rel_flatMap (List.forall₂_same.mpr fun id _ => rfl) ?_
  rintro id _ rfl
  refine List.rel_map (R := Registered.Alike) (fun x y hxy => ⟨rfl, hxy⟩) ?_
  refine List.rel_filter (fun x y hxy => ?_) (hstores id)
  exact iff_of_eq (congrArg (· = true) (hxy.criteria.answers_eq h annotationId))

/-- Whatever is in the store, more values in a context lose no rule; a narrower rule answers
no further request and is as specific at least; and neither order nor repetitions of values
count. -/
theorem widening_and_narrowing (engine : Engine) :
    (∀ narrow wide : Context, narrow.Within wide →
      (∀ annotationId chain, (engine.found narrow annotationId chain).Sublist
        (engine.found wide annotationId chain))
      ∧ ∀ query plan, ({ engine with context := narrow } : Engine).plan query = .ok plan →
        ∃ rules, ({ engine with context := wide } : Engine).plan query = .ok { plan with rules }
          ∧ plan.rules.Sublist rules)
    ∧ (∀ narrow broad : Criteria, narrow.Narrows broad →
      (∀ request, narrow.answers request → broad.answers request)
        ∧ broad.specificity ≤ narrow.specificity)
    ∧ (∀ criteria other : Criteria, criteria.Alike other →
      (∀ context actual : Context, context.Alike actual → ∀ annotationId,
          criteria.answers ⟨context, annotationId⟩ = other.answers ⟨actual, annotationId⟩)
        ∧ criteria.specificity = other.specificity)
    ∧ ∀ context actual : Context, context.Alike actual → ∀ annotationId chain,
      engine.found context annotationId chain = engine.found actual annotationId chain
      ∧ ∀ other : Engine, engine.StoredAlike other →
        List.Forall₂ (fun x y => x.1 = y.1 ∧ x.2.Alike y.2)
          (engine.found context annotationId chain) (other.found actual annotationId chain) := by
  refine ⟨fun narrow wide h => ⟨found_sublist h, fun query plan => plan_of_within h⟩,
    fun narrow broad h => ⟨fun request => h.answers, h.specificity_le⟩,
    fun criteria other h => ⟨fun context actual hcontext => h.answers_eq hcontext,
      h.specificity_eq⟩,
    fun context actual h annotationId chain => ⟨found_eq h annotationId chain,
      fun other hstores => found_alike hstores h annotationId chain⟩⟩

def localeRule (locale : Option Accepted) (ordinal : Nat) : Registered :=
  ⟨⟨⟨["page"], { locale }, none⟩, [], .fixed .empty, none, .zero⟩, ordinal⟩

def localeEngine (locale : Accepted) : Engine where
  context := {}
  store := { byModule := [("page", [localeRule none 0, localeRule (some locale) 1])], size := 2 }
  metadata := Metadata.ofTables [] []

theorem germanPage_found :
    let english : Context := { locale := some ⟨["en"]⟩ }
    let german : Context := { locale := some ⟨["de", "en"]⟩ }
    let repeated : Context := { locale := some ⟨["en", "de", "en"]⟩ }
    let engine := localeEngine ⟨["de", "at"]⟩
    let other := localeEngine ⟨["at", "de", "at"]⟩
    let plain := localeRule none 0
    let localized := localeRule (some ⟨["de", "at"]⟩) 1
    engine.found english none ["page"] = [("page", plain)]
      ∧ engine.found german none ["page"] = [("page", plain), ("page", localized)]
      ∧ (engine.found english none ["page"]).Sublist (engine.found german none ["page"])
      ∧ plain.rule.criteria.specificity ≤ localized.rule.criteria.specificity
      ∧ engine.found german none ["page"] = engine.found repeated none ["page"]
      ∧ List.Forall₂ (fun x y => x.1 = y.1 ∧ x.2.Alike y.2)
        (engine.found german none ["page"]) (other.found repeated none ["page"]) := by
  intro english german repeated engine other plain localized
  obtain ⟨hwiden, hnarrow, halike, hfound⟩ := widening_and_narrowing engine
  have hwithin : english.Within german := by
    intro dimension
    cases dimension <;> decide
  have hnarrows : localized.rule.criteria.Narrows plain.rule.criteria := by
    refine ⟨.refl _, fun dimension accepted haccepted => ?_⟩
    cases dimension <;> cases haccepted
  have hcontext : german.Alike repeated := by
    constructor <;> intro dimension <;> cases dimension <;> decide
  have hplain : plain.Alike plain :=
    ⟨⟨.refl _, fun _ => .refl _⟩, rfl⟩
  have hlocale : Accepted.Alike (some ⟨["de", "at"]⟩) (some ⟨["at", "de", "at"]⟩) := by
    refine ⟨rfl, fun value => ?_⟩
    simp only [Accepted.listed, List.mem_cons, List.not_mem_nil, or_false]
    tauto
  have hlocalized : localized.Alike (localeRule (some ⟨["at", "de", "at"]⟩) 1) := by
    refine ⟨⟨.refl _, fun dimension => ?_⟩, rfl⟩
    cases dimension with
    | locale => exact hlocale
    | user | theme | application => exact .refl _
  have hstores : engine.StoredAlike other := by
    intro id
    by_cases hid : id = "page"
    · subst hid
      exact .cons hplain (.cons hlocalized .nil)
    · have hnone : ∀ locale, (localeEngine locale).store.rulesFor id = [] := by
        intro locale
        simp [localeEngine, RuleStore.rulesFor, Fields.get?, hid]
      rw [hnone, hnone]
      exact .nil
  refine ⟨rfl, rfl, (hwiden english german hwithin).1 none ["page"], (hnarrow _ _ hnarrows).2,
    (hfound german repeated hcontext none ["page"]).1,
    (hfound german repeated hcontext none ["page"]).2 other hstores⟩

end Engine

end Strata
