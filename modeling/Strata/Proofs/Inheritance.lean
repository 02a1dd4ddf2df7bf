import Strata.Proofs.Ancestry
import Strata.Proofs.AtHand
import Strata.Proofs.Placement

/-!
# Inheritance

A type that inherits is resolved as its ancestor is, and then by its own rules. The chain
of the type is the ancestor's with the type at the end, so its rules are the ancestor's
and then its own; no external entries are placed among them, so they are the steps; and
what a list of steps contributes is what its front and its back contribute, one after the
other. Everything else in a request is the same for the type and its ancestor.

The equation is one between scripts, so it holds whether they are answered at once or run:
what fails, fails in the ancestor first, and what is loaded is loaded for the ancestor
first.
-/

namespace Strata

open Script (ofOutcome answer_bind answer_ofOutcome)

theorem Placement.interleave_nil {α β : Type} (ties : TieBreak) (rulePriority : α → Binary64)
    (entryPriority : β → Binary64) (rules : List α) :
    interleave ties rulePriority entryPriority rules [] = rules.map .inl := by
  rw [interleave, List.map_nil, List.mergeSort_nil]
  suffices h : ∀ position, weave position rules ([] : List (Placed β)) = rules.map .inl from h 0
  induction rules with
  | nil => exact fun _ => rfl
  | cons rule rest ih =>
      intro position
      show .inl rule :: weave (position + 1) rest [] = _
      rw [ih, List.map_cons]

namespace Engine

variable {engine : Engine}

/-! ## Steps in a row -/

theorem contributions_append (moduleId : String)
    (front back : List ((String × Registered) ⊕ (Entry × Nat))) :
    engine.contributions moduleId (front ++ back) = (do
      let first ← engine.contributions moduleId front
      let others ← engine.contributions moduleId back
      pure (first ++ others)) := by
  induction front with
  | nil =>
      rw [List.nil_append, contributions, pure_bind]
      exact (bind_pure _).symm
  | cons step rest ih =>
      rw [List.cons_append, contributions, contributions, ih]
      simp only [bind_assoc, pure_bind, List.cons_append]

/-- What rules contribute does not depend on the module that is resolved. -/
theorem contributions_rules (moduleId other : String) (rules : List (String × Registered)) :
    engine.contributions moduleId (rules.map .inl)
      = engine.contributions other (rules.map .inl) := by
  induction rules with
  | nil => rfl
  | cons rule rest ih =>
      rw [List.map_cons, contributions, contributions, ih]
      rfl

/-! ## Plans -/

/-- The plan for a module with a given chain. -/
def planFor (engine : Engine) (id : String) (chain : List String)
    (annotationId : Option String) : Plan where
  moduleId := id
  annotationId := annotationId
  chain := chain
  rules := chain.flatMap (engine.matching { context := engine.context, annotationId })

theorem plan_eq {query : Query} {chain : List String} (hid : query.moduleId ≠ "")
    (hcanonical : engine.canonicalId query.moduleId = .ok query.moduleId)
    (hchain : engine.chainOf query.inherit query.moduleId = .ok chain) :
    engine.plan query
      = engine.planFor query.moduleId chain <$> engine.canonicalAnnotation query.annotationId := by
  rw [plan, checkModuleId, if_neg hid, hcanonical]
  cases engine.canonicalAnnotation query.annotationId with
  | error fault => rfl
  | ok annotationId =>
      show (engine.chainOf query.inherit query.moduleId >>= _ : Outcome Plan) = _
      rw [hchain]
      rfl

theorem externalEntries_eq_pure {plan : Plan}
    (h : engine.provider = none ∨ plan.annotationId.isSome) :
    engine.externalEntries plan = pure [] := by
  unfold externalEntries
  split
  · next provider hprovider hasked =>
      rcases h with hnone | hsome
      · rw [hnone] at hprovider
        cases hprovider
      · rw [hasked] at hsome
        cases hsome
  · rfl

theorem steps_nil (plan : Plan) : engine.steps plan [] = .ok (plan.rules.map .inl) := by
  rw [steps, List.zipIdx_nil, Placement.interleave_nil]
  rfl

/-- A plan without external entries is explained by its rules. -/
theorem explanation_of_plan {query : Query} {plan : Plan} (hplan : engine.plan query = .ok plan)
    (h : engine.provider = none ∨ plan.annotationId.isSome) :
    engine.explanation query = (do
      let contributions ← engine.contributions plan.moduleId (plan.rules.map .inl)
      pure { moduleId := plan.moduleId, annotationId := plan.annotationId, chain := plan.chain,
             contributions }) := by
  have hsteps : ofOutcome (engine.steps plan []) = pure (plan.rules.map .inl) := by
    rw [steps_nil]
    rfl
  have hstart : ofOutcome (.ok plan : Outcome Plan) = pure plan := rfl
  rw [explanation, hplan, hstart, pure_bind, externalEntries_eq_pure h, pure_bind, hsteps,
    pure_bind]

theorem explain_alone {id : String} {annotationId : Option String} {cells : Cells}
    {own : Explanation} (hid : id ≠ "") (hcanonical : engine.canonicalId id = .ok id)
    (h : engine.explain cells { moduleId := id, annotationId } = .ok own) :
    own.moduleId = id ∧ own.chain = [id] := by
  obtain ⟨plan, hplan, h⟩ := Outcome.bind_eq_ok.mp h
  obtain ⟨entries, -, h⟩ := Outcome.bind_eq_ok.mp h
  obtain ⟨steps, -, h⟩ := Outcome.bind_eq_ok.mp h
  obtain ⟨contributions, -, h⟩ := Outcome.bind_eq_ok.mp h
  cases h
  rw [@plan_eq engine { moduleId := id, annotationId } [id] hid hcanonical rfl] at hplan
  obtain ⟨canonical, -, rfl⟩ := Outcome.map_eq_ok.mp hplan
  exact ⟨rfl, rfl⟩

theorem explanation_of_fault {query : Query} {fault : Fault}
    (hplan : engine.plan query = .error fault) :
    engine.explanation query = .finish (.error fault) := by
  rw [explanation, hplan]
  rfl

section Joined

variable {whole first second : Query} {join : Explanation → Explanation → Explanation}

/-- Explanations that are joined as scripts are joined if they are asked for at once. -/
theorem explain_of_joined (h : engine.explanation whole = (do
      let above ← engine.explanation first
      let own ← engine.explanation second
      pure (join above own))) (cells : Cells) :
    engine.explain cells whole = (do
      let above ← engine.explain cells first
      let own ← engine.explain cells second
      pure (join above own)) := by
  simp only [← answer_explanation, h, answer_bind]
  rfl

/-- With waiting, the second is explained from what the first has left. -/
theorem explainWaiting_of_joined (h : engine.explanation whole = (do
      let above ← engine.explanation first
      let own ← engine.explanation second
      pure (join above own))) (cells : Cells) :
    engine.explainWaiting cells whole =
      match engine.explainWaiting cells first with
      | (.error fault, later) => (.error fault, later)
      | (.ok above, later) =>
        match engine.explainWaiting later second with
        | (.error fault, latest) => (.error fault, latest)
        | (.ok own, latest) => (.ok (join above own), latest) := by
  unfold explainWaiting
  rw [h, Script.run_bind]
  rcases (engine.explanation first).run cells with ⟨above | above, later⟩
  · rfl
  · dsimp only
    rw [Script.run_bind]
    rcases (engine.explanation second).run later with ⟨own | own, latest⟩ <;> rfl

end Joined

theorem isSome_of_canonicalAnnotation_eq_ok {annotationId canonical : Option String}
    (hrequested : ∃ asked, annotationId = some asked ∧ asked ≠ "")
    (h : engine.canonicalAnnotation annotationId = .ok canonical) : canonical.isSome := by
  obtain ⟨asked, rfl, hnamed⟩ := hrequested
  rw [canonicalAnnotation_some hnamed] at h
  obtain ⟨id, -, rfl⟩ := Outcome.map_eq_ok.mp h
  rfl

/-! ## One module below another -/

section Below

variable {id ancestor : String} {chain : List String}

/-- A module whose chain is another's with the module at the end is explained as the other
is and then by its own rules. -/
theorem explanation_below (hid : id ≠ "") (hancestor : ancestor ≠ "")
    (hcanonical : engine.canonicalId id = .ok id)
    (hcanonical' : engine.canonicalId ancestor = .ok ancestor)
    (hchain : engine.metadata.chain ancestor = .ok chain)
    (hchain' : engine.metadata.chain id = .ok (chain ++ [id])) {annotationId : Option String}
    (hquiet : engine.provider = none
      ∨ ∃ asked, annotationId = some asked ∧ asked ≠ "") :
    engine.explanation { moduleId := id, annotationId, inherit := true } = (do
      let above ← engine.explanation { moduleId := ancestor, annotationId, inherit := true }
      let own ← engine.explanation { moduleId := id, annotationId }
      pure { own with
        chain := above.chain ++ [id]
        contributions := above.contributions ++ own.contributions }) := by
  have hwhole := @plan_eq engine { moduleId := id, annotationId, inherit := true }
    (chain ++ [id]) hid hcanonical hchain'
  have habove := @plan_eq engine { moduleId := ancestor, annotationId, inherit := true }
    chain hancestor hcanonical' hchain
  have hown := @plan_eq engine { moduleId := id, annotationId } [id] hid hcanonical rfl
  -- The three requests ask for one annotation: either none of them has a plan, or the
  -- plan of the first has the rules of the second and then those of the third.
  cases hasked : engine.canonicalAnnotation annotationId with
  | error fault =>
      simp only [hasked] at hwhole habove hown
      rw [explanation_of_fault hwhole, explanation_of_fault habove]
      rfl
  | ok canonical =>
      simp only [hasked] at hwhole habove hown
      have hentries : engine.provider = none ∨ canonical.isSome :=
        hquiet.imp_right fun hrequested => isSome_of_canonicalAnnotation_eq_ok hrequested hasked
      rw [explanation_of_plan hwhole hentries, explanation_of_plan habove hentries,
        explanation_of_plan hown hentries]
      have hrules := @contributions_rules engine id ancestor
      simp only [planFor, List.flatMap_append, List.map_append, contributions_append,
        bind_assoc, pure_bind, hrules]

end Below

/-! ## A type below its ancestor -/

theorem canonicalId_of_find? {registry : Registry} {id : String}
    (hmetadata : engine.metadata = registry.metadata) (hfound : (registry.find? id).isSome)
    (hid : id ≠ "") : engine.canonicalId id = .ok id := by
  have hcanonical : engine.metadata.canonical? id = some id := by
    obtain ⟨entry, hentry⟩ := Option.isSome_iff_exists.mp hfound
    obtain ⟨position, hindexed, -⟩ := Option.bind_eq_some_iff.mp hentry
    rw [hmetadata]
    exact if_pos (Option.isSome_of_eq_some hindexed)
  rw [canonicalId, hcanonical]
  exact if_neg hid

theorem foldlM_mergeOnto (value : Json) (fragments : List Json) :
    fragments.foldlM mergeOnto (some value) = some <$> fragments.foldlM mergePair value := by
  induction fragments generalizing value with
  | nil => rfl
  | cons fragment rest ih =>
      rw [List.foldlM_cons, List.foldlM_cons, mergeOnto]
      cases mergePair value fragment with
      | error fault => rfl
      | ok merged => exact ih merged

/-- The contributions of one explanation behind those of another merge onto what the
other comes to. -/
theorem result_append {above whole own : Explanation} {value : Json}
    (hwhole : whole.contributions = above.contributions ++ own.contributions)
    (habove : above.result = .ok (some value)) :
    whole.result = some <$> own.fragments.foldlM mergePair value := by
  have hfragments : whole.fragments = above.fragments ++ own.fragments := by
    rw [Explanation.fragments, hwhole, List.map_append]
    rfl
  rw [Explanation.result, mergeFragments] at habove
  rw [Explanation.result, mergeFragments, hfragments, List.foldlM_append, habove,
    ← foldlM_mergeOnto]
  rfl

/-- In a registry, however it was made, a type that inherits is explained as its ancestor
is and then by its own rules: its chain is the ancestor's with the type at the end, what
contributes is what contributes to the ancestor and then what contributes to the type
alone, and it fails if the one fails or else the other. If the ancestor has a
configuration, that of the type is its own fragments merged onto it. -/
theorem inherits_from_ancestor (commands : List Registry.Command) (engine : Engine)
    (id ancestor : String) (annotationId : Option String)
    (hmetadata : engine.metadata = (Registry.afterCommands commands).metadata)
    (htype : (Registry.afterCommands commands).describe? id
      = some { id, kind := .typeModule, ancestor := some ancestor })
    (hquiet : engine.provider = none
      ∨ ∃ asked, annotationId = some asked ∧ asked ≠ "") :
    let inherited (moduleId : String) : Query := { moduleId, annotationId, inherit := true }
    let alone : Query := { moduleId := id, annotationId }
    (∀ cells, engine.explain cells (inherited id) = do
      let above ← engine.explain cells (inherited ancestor)
      let own ← engine.explain cells alone
      pure { own with
        chain := above.chain ++ [id]
        contributions := above.contributions ++ own.contributions })
    ∧ (∀ cells own, engine.explain cells alone = .ok own → own.moduleId = id ∧ own.chain = [id])
    ∧ (∀ cells value, engine.select cells (inherited ancestor) = .ok (some value) →
      engine.select cells (inherited id) = do
        let own ← engine.explain cells alone
        some <$> own.fragments.foldlM mergePair value)
    ∧ ∀ cells, engine.explainWaiting cells (inherited id) =
      match engine.explainWaiting cells (inherited ancestor) with
      | (.error fault, later) => (.error fault, later)
      | (.ok above, later) =>
        match engine.explainWaiting later alone with
        | (.error fault, latest) => (.error fault, latest)
        | (.ok own, latest) =>
          (.ok { own with
            chain := above.chain ++ [id]
            contributions := above.contributions ++ own.contributions }, latest) := by
  intro inherited alone
  have hgrown := Registry.grown_afterCommands commands
  obtain ⟨entry, hmem, rfl, hkind, hparent⟩ := Registry.find?_of_describe? htype rfl
  obtain ⟨type, hmem', rfl, -⟩ := hgrown.parent_of_mem entry hmem ancestor hparent
  obtain ⟨chain, hchain, hchain'⟩ := hgrown.chain_of_type hmem hkind hparent
  have hid := hgrown.named entry hmem
  have hancestor := hgrown.named type hmem'
  have hcanonical := canonicalId_of_find? hmetadata
    (Option.isSome_of_eq_some (hgrown.find?_of_mem hmem)) hid
  have hcanonical' := canonicalId_of_find? hmetadata
    (Option.isSome_of_eq_some (hgrown.find?_of_mem hmem')) hancestor
  rw [← hmetadata] at hchain hchain'
  have hbelow := explanation_below hid hancestor hcanonical hcanonical' hchain hchain' hquiet
  have hexplain := explain_of_joined hbelow
  refine ⟨hexplain, fun cells own => explain_alone hid hcanonical, ?_,
    explainWaiting_of_joined hbelow⟩
  intro cells value hvalue
  obtain ⟨above, habove, hresult⟩ := Outcome.bind_eq_ok.mp hvalue
  rw [select, hexplain, habove]
  cases engine.explain cells alone with
  | error fault => rfl
  | ok own => exact result_append rfl hresult

/-- A type two below the root; one that was to be derived from no registered type is not
there. -/
def descent : List Registry.Command :=
  [.addType "root" none, .addType "orphan" (some "nowhere"), .addSubtype "middle" "root",
    .addAlias "leaf" "root", .addType "leaf" (some "middle")]

/-- Rules for the root and for the leaf, the second of which adds to the first. -/
def descentEngine : Engine :=
  let rule (priority : Binary64) (id : String) (fragment : Json) : Rule :=
    { criteria := ⟨[id], {}, none⟩, deps := [], apply := .fixed fragment, contextId := none,
      priority }
  let more : Json := .object [("$op", .text "add"), ("value", .array [.integer 2])]
  { context := {}, metadata := (Registry.afterCommands descent).metadata
    store := (({} : RuleStore).insert (rule .zero "leaf" (.object [("list", more)]))).insert
      (rule .infinity "root" (.object [("list", .array [.integer 1])])) }

theorem descentEngine_inherits :
    (Registry.afterCommands descent).describe? "leaf"
        = some { id := "leaf", kind := .typeModule, ancestor := some "middle" }
      ∧ descentEngine.select [] { moduleId := "middle", inherit := true }
        = .ok (some (.object [("list", .array [.integer 1])]))
      ∧ descentEngine.select [] { moduleId := "leaf", inherit := true }
        = .ok (some (.object [("list", .array [.integer 1, .integer 2])])) := by
  have htype : (Registry.afterCommands descent).describe? "leaf"
      = some { id := "leaf", kind := .typeModule, ancestor := some "middle" } := by cbv
  have hmiddle : descentEngine.select [] { moduleId := "middle", inherit := true }
      = .ok (some (.object [("list", .array [.integer 1])])) := by cbv
  refine ⟨htype, hmiddle, ?_⟩
  rw [(inherits_from_ancestor descent descentEngine "leaf" "middle" none rfl htype
    (.inl rfl)).2.2.1 [] _ hmiddle]
  cbv

end Engine

end Strata
