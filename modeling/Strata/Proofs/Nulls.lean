import Mathlib
import Strata.Manifest.Parser
import Strata.Proofs.Account
import Strata.Proofs.Pointwise
import Strata.Proofs.Registration

/-!
# Null results

A request that nothing contributes to has no result, which is written as null. Something
that contributes comes to a value, and the last fragment tells whether this is null: an
object makes an object of whatever is there, and anything else takes its place.

Functions that return null contribute an empty object, and so do external entries whose
configuration is null. A fixed fragment is taken as it is. So null is not the mark of a
request that nothing contributes to: a rule whose fixed fragment is null, and which has the
last word, gives the same. In a manifest these are the rules whose fragment is a number
that JSON does not have.
-/

namespace Strata

/-! ## Fragments -/

theorem Apply.fragment_eq_null_iff {apply : Apply} {values : List Json} :
    apply.fragment values = .null ↔ apply = .fixed .null := by
  cases apply with
  | fixed fragment => exact ⟨fun h => congrArg Apply.fixed h, Apply.fixed.inj⟩
  | computed compute =>
      constructor
      · intro h
        rw [fragment] at h
        split at h
        · cases h
        · cases h
        · next hnull _ => exact absurd h hnull
      · intro h
        cases h

theorem Entry.fragment_ne_null (entry : Entry) : entry.fragment ≠ .null := by
  intro h
  rw [fragment] at h
  split at h
  · cases h
  · next hnull => exact hnull h

/-- A merge gives nothing if there are no fragments, and null if the last one is null. -/
theorem Merging.result_of_mergeFragments {fragments : List Json} {result : Option Json}
    (h : mergeFragments fragments = .ok result) :
    (result = none ↔ fragments = [])
      ∧ (result = some .null ↔ fragments.getLast? = some .null) := by
  rcases fragments.eq_nil_or_concat' with rfl | ⟨front, last, rfl⟩
  · cases h
    exact ⟨iff_of_true rfl rfl, iff_of_false (by simp) (by simp)⟩
  · rw [mergeFragments_concat] at h
    obtain ⟨present, -, h⟩ := Outcome.bind_eq_ok.mp h
    -- Whatever is present, an object comes to an object and another value to itself.
    rcases object_or_not last with ⟨fields, rfl⟩ | hvalue
    · rw [mergeOnto_object] at h
      obtain ⟨merged, -, rfl⟩ := Outcome.map_eq_ok.mp h
      simp
    · rw [mergeOnto_of_not_object hvalue] at h
      cases h
      simp

/-! ## Rules of a manifest -/

namespace Toml.Value

theorem jsonOfFloat_eq_null_iff {number : Binary64} :
    jsonOfFloat number = .null ↔ number.isFinite = false := by
  rw [jsonOfFloat]
  split
  · next hfinite => simp [hfinite]
  · next hfinite => simpa using hfinite

theorem toJson?_table_ne_null (entries : List (String × Toml.Value)) :
    (table entries).toJson? ≠ some .null := by
  intro h
  cases entries with
  | nil => cases h
  | cons entry rest =>
      rw [toJson?] at h
      split at h
      · obtain ⟨text, -, h⟩ := Option.bind_eq_some_iff.mp h
        obtain ⟨spelled, -, h⟩ := Option.bind_eq_some_iff.mp h
        cases h
      · obtain ⟨first, -, h⟩ := Option.bind_eq_some_iff.mp h
        obtain ⟨others, -, h⟩ := Option.bind_eq_some_iff.mp h
        cases h

theorem toJson?_eq_null_iff {value : Toml.Value} :
    value.toJson? = some .null ↔ ∃ number, value = .float number ∧ number.isFinite = false := by
  cases value with
  | float number => simp [toJson?, jsonOfFloat_eq_null_iff]
  | table entries => simp [toJson?_table_ne_null]
  | string _ => simp [toJson?]
  | integer _ => simp [toJson?]
  | boolean _ => simp [toJson?]
  | datetime _ => simp [toJson?]
  | array items =>
      simp [toJson?]

end Toml.Value

theorem Manifest.apply_of_rule? {value : Toml.Value} {spec : RuleSpec}
    (h : rule? value = some spec) :
    ∃ fields, value.fields? ["priority", "select", "deps", "apply"] = some fields
      ∧ ∃ fragment, Toml.Value.default? Toml.Value.toJson? .empty "apply" fields = some fragment
        ∧ spec.apply = .fixed fragment := by
  obtain ⟨fields, hfields, h⟩ := Option.bind_eq_some_iff.mp h
  obtain ⟨priority, -, h⟩ := Option.bind_eq_some_iff.mp h
  obtain ⟨select, -, h⟩ := Option.bind_eq_some_iff.mp h
  obtain ⟨deps, -, h⟩ := Option.bind_eq_some_iff.mp h
  obtain ⟨fragment, hfragment, h⟩ := Option.bind_eq_some_iff.mp h
  cases h
  exact ⟨fields, hfields, fragment, hfragment, rfl⟩

/-- The fragment of a rule in a manifest is null if it is written as a number that JSON does
not have. -/
theorem Manifest.fixed_null_iff {value : Toml.Value} {spec : RuleSpec}
    (h : rule? value = some spec) :
    ∃ fields, value.fields? ["priority", "select", "deps", "apply"] = some fields
      ∧ (spec.apply = .fixed .null ↔
        ∃ number, List.lookup "apply" fields = some (.float number)
          ∧ number.isFinite = false) := by
  obtain ⟨fields, hfields, fragment, hfragment, happly⟩ := apply_of_rule? h
  refine ⟨fields, hfields, ?_⟩
  rw [happly, Apply.fixed.injEq]
  rw [Toml.Value.default?, Toml.Value.optional?] at hfragment
  cases hwritten : List.lookup "apply" fields with
  | none =>
      rw [hwritten] at hfragment
      cases hfragment
      simp [Json.empty]
  | some written =>
      rw [hwritten] at hfragment
      have hread : written.toJson? = some fragment := by simpa using hfragment
      have hnull := @Toml.Value.toJson?_eq_null_iff written
      rw [hread, Option.some.injEq] at hnull
      simp [hnull]

/-! ## Contributions -/

/-- No rule of the sets has null for its fragment. -/
def WithoutFixedNull (sets : List RuleSet) : Prop :=
  ∀ set ∈ sets, ∀ spec ∈ set.rules, spec.apply ≠ .fixed .null

namespace Engine

variable {engine : Engine} {sets : List RuleSet} {query : Query} {explanation : Explanation}
  {cells later : Cells}

/-- A contribution of a rule that has null for its fragment in its set. -/
def FromFixedNull (engine : Engine) (sets : List RuleSet) (contribution : Contribution) : Prop :=
  ∃ id registered values, contribution = ruleContribution id registered values
    ∧ ∃ set ∈ sets, ∃ spec ∈ set.rules, spec.apply = .fixed .null
      ∧ spec.normalize engine.canonicalId set.contextId = .ok registered.rule

theorem fromFixedNull_of_null
    (h : (engine.afterSets sets).ExplainsWith cells query explanation later)
    {contribution : Contribution} (hmem : contribution ∈ explanation.contributions)
    (hnull : contribution.fragment = .null) : engine.FromFixedNull sets contribution := by
  obtain ⟨plan, entries, steps, haccount⟩ := h.exists_account
  obtain ⟨step, hstep, hready⟩ := haccount.step_of_mem hmem
  cases step with
  | inr indexed =>
      cases hready
      exact absurd hnull (Entry.fragment_ne_null _)
  | inl found =>
      obtain ⟨values, -, hpure⟩ := Outcome.bind_eq_ok.mp hready
      cases hpure
      have hfound := (mem_rules_iff (holds_afterSets engine sets) haccount.planned).mp
        (mem_rules_of_steps haccount.placed hstep)
      obtain ⟨set, hset, spec, hspec, hnormalize⟩ :=
        exists_spec_of_mem_accepted (List.mem_of_getElem? hfound.2.1)
      have happly := (RuleSpec.becomes_of_normalize hnormalize).apply
      rw [Apply.fragment_eq_null_iff.mp hnull] at happly
      exact ⟨found.1, found.2, values, rfl, set, hset, spec, hspec, happly.symm, hnormalize⟩

/-- What null tells of a request, from its explanation and its result. -/
structure NullTells (engine : Engine) (sets : List RuleSet) (explanation : Explanation)
    (result : Option Json) : Prop where
  none_iff : result = none ↔ explanation.contributions = []
  null_iff : result.getD .null = .null ↔
    explanation.contributions = [] ∨ explanation.fragments.getLast? = some .null
  fixed : ∀ contribution ∈ explanation.contributions, contribution.fragment = .null →
    engine.FromFixedNull sets contribution
  null_iff_of_without : WithoutFixedNull sets →
    (result.getD .null = .null ↔ explanation.contributions = [])

theorem nullTells_of_explainsWith
    (h : (engine.afterSets sets).ExplainsWith cells query explanation later)
    {result : Option Json} (hresult : explanation.result = .ok result) :
    engine.NullTells sets explanation result := by
  obtain ⟨hnone, hnull⟩ := Merging.result_of_mergeFragments hresult
  rw [Explanation.fragments, List.map_eq_nil_iff] at hnone
  have hgetD : result.getD .null = .null ↔
      explanation.contributions = [] ∨ explanation.fragments.getLast? = some .null := by
    rw [← hnone, ← hnull]
    cases result <;> simp
  have hfixed : ∀ contribution ∈ explanation.contributions, contribution.fragment = .null →
      engine.FromFixedNull sets contribution := fun _ => fromFixedNull_of_null h
  refine ⟨hnone, hgetD, hfixed, fun hwithout => ?_⟩
  rw [hgetD]
  refine or_iff_left fun hlast => ?_
  rw [Explanation.fragments, List.getLast?_map] at hlast
  obtain ⟨last, hlast, hfragment⟩ := Option.map_eq_some_iff.mp hlast
  obtain ⟨_, _, _, -, set, hset, spec, hspec, happly, -⟩ :=
    hfixed last (List.mem_of_getLast? hlast) hfragment
  exact hwithout set hset spec hspec happly

/-- A request with a result is explained, and the result is null if nothing contributes, or
if the last fragment is null, which only a rule with that as its fragment can give. -/
theorem null_from_nothing_or_fixed_null (engine : Engine) (sets : List RuleSet) (cells : Cells)
    (query : Query) :
    let full := engine.afterSets sets
    (∀ result, full.select cells query = .ok result → ∃ explanation,
      full.explain cells query = .ok explanation ∧ engine.NullTells sets explanation result)
    ∧ (∀ result later, full.selectWaiting cells query = (.ok result, later) → ∃ explanation,
      full.explainWaiting cells query = (.ok explanation, later)
        ∧ engine.NullTells sets explanation result)
    ∧ ∀ value spec, Manifest.rule? value = some spec → ∃ fields,
      value.fields? ["priority", "select", "deps", "apply"] = some fields
        ∧ (spec.apply = .fixed .null ↔ ∃ number, List.lookup "apply" fields = some (.float number)
          ∧ number.isFinite = false) := by
  intro full
  refine ⟨fun result hselect => ?_, fun result later hselect => ?_,
    fun value spec => Manifest.fixed_null_iff⟩
  · obtain ⟨explanation, hexplain, hresult⟩ := Outcome.bind_eq_ok.mp hselect
    exact ⟨explanation, hexplain, nullTells_of_explainsWith (.inl ⟨hexplain, rfl⟩) hresult⟩
  · obtain ⟨explanation, between, hexplain, hmerge⟩ := Script.of_run_bind hselect
    obtain ⟨hresult, rfl⟩ := Prod.mk.inj hmerge
    exact ⟨explanation, hexplain, nullTells_of_explainsWith (.inr hexplain) hresult⟩

def pageOf (apply : Apply) : RuleSet where
  rules := [{ select := { modules := [some "page"] }, apply }]

def bareEngine : Engine where
  context := {}
  metadata := Metadata.ofTables [] []

def pageExplanation (fragment : Json) : Explanation where
  moduleId := "page"
  annotationId := none
  chain := ["page"]
  contributions := [⟨.rule "page" none .zero 0 0 [], fragment⟩]

theorem bareEngine_explain (apply : Apply) :
    (bareEngine.afterSets [pageOf apply]).explain [] { moduleId := "page" }
      = .ok (pageExplanation (apply.fragment [])) := by
  have hrules : bareEngine.normalized (pageOf apply)
      = .ok [⟨⟨["page"], {}, none⟩, [], apply, none, .zero⟩] := rfl
  rw [afterSets_singleton hrules]
  cbv

theorem bareEngine_select {apply : Apply} {result : Option Json}
    (h : mergeFragments [apply.fragment []] = .ok result) :
    (bareEngine.afterSets [pageOf apply]).select [] { moduleId := "page" } = .ok result :=
  Outcome.bind_eq_ok.mpr ⟨_, bareEngine_explain apply, h⟩

/-- A rule of a manifest whose fragment is no number. -/
def nanRule : Toml.Value :=
  .table [("select", .table [("module", .string "page")]), ("apply", .float .nan)]

theorem nullFunction_empty :
    let full := bareEngine.afterSets [pageOf (.computed fun _ => some .null)]
    WithoutFixedNull [pageOf (.computed fun _ => some .null)]
      ∧ full.select [] { moduleId := "page" } = .ok (some .empty)
      ∧ full.selectWaiting [] { moduleId := "page" } = (.ok (some .empty), [])
      ∧ (∃ explanation, full.explain [] { moduleId := "page" } = .ok explanation
        ∧ explanation.contributions ≠ [])
      ∧ (∃ explanation, full.explainWaiting [] { moduleId := "page" } = (.ok explanation, [])
        ∧ explanation.contributions ≠ [])
      ∧ ∃ spec, Manifest.rule? nanRule = some spec ∧ spec.apply = .fixed .null := by
  intro full
  have hwithout : WithoutFixedNull [pageOf (.computed fun _ => some .null)] := by
    intro set hset spec hspec
    cases List.mem_singleton.mp hset
    cases List.mem_singleton.mp hspec
    exact nofun
  have hmerge : mergeFragments [.empty] = .ok (some .empty) := by cbv
  have hselect : full.select [] { moduleId := "page" } = .ok (some .empty) :=
    bareEngine_select hmerge
  have hwaiting : full.selectWaiting [] { moduleId := "page" } = (.ok (some .empty), []) :=
    Script.run_of_answer ((answer_selection _).trans hselect)
  have hrule : ∃ spec, Manifest.rule? nanRule = some spec := Option.isSome_iff_exists.mp (by cbv)
  obtain ⟨hatOnce, hlater, hmanifest⟩ := null_from_nothing_or_fixed_null bareEngine
    [pageOf (.computed fun _ => some .null)] [] { moduleId := "page" }
  obtain ⟨explanation, hexplain, htells⟩ := hatOnce _ hselect
  obtain ⟨other, hexplainLater, hother⟩ := hlater _ _ hwaiting
  obtain ⟨spec, hspec⟩ := hrule
  obtain ⟨fields, hfields, hnull⟩ := hmanifest _ spec hspec
  refine ⟨hwithout, hselect, hwaiting, ⟨explanation, hexplain, fun hnone => ?_⟩,
    ⟨other, hexplainLater, fun hnone => ?_⟩, spec, hspec, hnull.mpr ?_⟩
  · cases (htells.null_iff_of_without hwithout).mpr hnone
  · cases (hother.null_iff_of_without hwithout).mpr hnone
  · cases hfields
    exact ⟨.nan, rfl, rfl⟩

/-- A rule contributes, and the result is null. -/
theorem nullRule_contributes :
    ¬ ∀ result explanation,
      let full := bareEngine.afterSets [pageOf (.fixed .null)]
      full.select [] { moduleId := "page" } = .ok result →
      full.explain [] { moduleId := "page" } = .ok explanation →
        (result.getD .null = .null ↔ explanation.contributions = []) := by
  intro h
  have hmerge : mergeFragments [.null] = .ok (some .null) := by cbv
  have hnull := (h _ _ (bareEngine_select hmerge) (bareEngine_explain (.fixed .null))).mp rfl
  cases hnull

end Engine

end Strata
