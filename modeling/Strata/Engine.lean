import Strata.Dependency
import Strata.Explanation
import Strata.Metadata
import Strata.Placement
import Strata.RuleStore

/-!
# The engine

Resolves the configuration of a module, or of an annotation on a module. The
module id is made canonical and, if asked for, expanded to its chain; for each
id of the chain the matching rules are collected in order of precedence; the
entries of the external provider are placed among them; each rule's
dependencies are resolved and its fragment evaluated; and the fragments are
merged. Annotation requests never see external entries.

A request is answered by a script, which waits where it has to, or at once from
what is at hand, which refuses there. The two ways go through the same steps, one
by one, and a step that does not wait is the same function in both.

An engine does not change while it resolves: what is loaded is in the cells,
beside it. Registering a rule set is all or nothing.
-/

namespace Strata

/-- How an engine behaves. -/
structure Options where
  externalTies : TieBreak := .internalWins
  deriving DecidableEq, Repr

namespace Options

def fieldNames : List String := ["external_ties"]

def toJson (options : Options) : Json :=
  .object [("external_ties", .text options.externalTies.name)]

def ofJson? (encoding : Encoding) (value : Json) : Option Options := do
  let record ← encoding.record? fieldNames value
  match Fields.get? "external_ties" record with
  | none => pure {}
  | some value => do
    let name ← encoding.choice? value
    let ties ← TieBreak.ofName? name
    pure ⟨ties⟩

end Options

structure Engine where
  context : Context
  options : Options := {}
  store : RuleStore := {}
  metadata : Metadata
  sources : Sources := []
  provider : Option Provider := none

/-- A request: a module or an annotation on it, with or without the rules of ancestors. -/
structure Query where
  moduleId : String
  annotationId : Option String := none
  inherit : Bool := false
  deriving DecidableEq, Repr

/-- A canonical request with the rules that match it, each under the chain id it was found at. -/
structure Plan where
  moduleId : String
  annotationId : Option String
  chain : List String
  rules : List (String × Registered)

namespace Engine

/-! ## Registration -/

/-- The canonical id of an id; an id that is not known stands for itself. -/
def canonicalId (engine : Engine) (id : String) : Outcome String :=
  match engine.metadata.canonical? id with
  | none => .ok id
  | some canonical => if canonical = "" then .error (.canonicalIdEmpty id) else .ok canonical

/-- The valid rules that a set stands for, if all of its rules are valid. -/
def normalized (engine : Engine) (set : RuleSet) : Outcome (List Rule) :=
  set.rules.mapM fun spec => spec.normalize engine.canonicalId set.contextId

/-- The registration of a set, on a store that a fault leaves as it is then: every
rule is made valid before the first is inserted. -/
def registration (engine : Engine) (set : RuleSet) : ExceptT Fault (StateM RuleStore) Unit := do
  let rules ← Outcome.lift (engine.normalized set)
  rules.forM fun rule => modify fun store => store.insert rule

/-- The outcome of registering a set, and the engine after it. -/
def register (engine : Engine) (set : RuleSet) : Outcome Unit × Engine :=
  let (outcome, store) := (engine.registration set).run engine.store
  (outcome, { engine with store })

/-- The engine with the rules of a set registered, if that succeeds. -/
def add (engine : Engine) (set : RuleSet) : Outcome Engine :=
  let (outcome, after) := engine.register set
  outcome.map fun _ => after

/-! ## Planning -/

/-- The canonical id of the requested annotation; an empty one is none. -/
def canonicalAnnotation (engine : Engine) : Option String → Outcome (Option String)
  | none => .ok none
  | some id => if id = "" then .ok none else some <$> engine.canonicalId id

theorem canonicalAnnotation_some {engine : Engine} {asked : String} (named : asked ≠ "") :
    engine.canonicalAnnotation (some asked) = some <$> engine.canonicalId asked :=
  if_neg named

/-- The ids that a request asks for. -/
def chainOf (engine : Engine) (inherit : Bool) (id : String) : Outcome (List String) :=
  if inherit then engine.metadata.chain id else .ok [id]

/-- The rules under a module id that answer a request. -/
def matching (engine : Engine) (request : Request) (id : String) : List (String × Registered) :=
  ((engine.store.rulesFor id).filter fun registered =>
    registered.rule.criteria.answers request).map fun registered => (id, registered)

/-- Refuses a request that names no module. -/
def checkModuleId (id : String) : Outcome Unit :=
  if id = "" then .error .moduleIdEmpty else .ok ()

def plan (engine : Engine) (query : Query) : Outcome Plan := do
  checkModuleId query.moduleId
  let moduleId ← engine.canonicalId query.moduleId
  let annotationId ← engine.canonicalAnnotation query.annotationId
  let chain ← engine.chainOf query.inherit moduleId
  let request : Request := { context := engine.context, annotationId }
  pure { moduleId, annotationId, chain, rules := chain.flatMap (engine.matching request) }

/-! ## Explaining -/

/-- The external entries for a plan; there are none without a provider. -/
def externalEntries (engine : Engine) (plan : Plan) : Script (List Entry) :=
  match engine.provider, plan.annotationId with
  | some provider, none => do
    let entries ← provider.entries plan.moduleId
    pure (entries.getD [])
  | _, _ => pure []

/-- Refuses entries from the given index on if one has no number as its priority. -/
def checkPriorities (moduleId : String) (index : Nat) : List Entry → Outcome Unit
  | [] => .ok ()
  | entry :: rest =>
    if entry.effectivePriority.isNaN then .error (.externalPriorityNotANumber index moduleId)
    else checkPriorities moduleId (index + 1) rest

/-- The rules of a plan and external entries, with their indexes, in one sequence. -/
def steps (engine : Engine) (plan : Plan) (entries : List Entry) :
    Outcome (List ((String × Registered) ⊕ (Entry × Nat))) := do
  checkPriorities plan.moduleId 0 entries
  pure (Placement.interleave engine.options.externalTies
    (fun found => found.2.rule.priority) (fun indexed => indexed.1.effectivePriority)
    plan.rules entries.zipIdx)

/-- What a rule contributes once its dependency values are known. -/
def ruleContribution (moduleId : String) (registered : Registered) (values : List Json) :
    Contribution :=
  let rule := registered.rule
  { origin := .rule moduleId rule.contextId rule.priority rule.criteria.specificity
      registered.ordinal rule.deps
    fragment := rule.apply.fragment values }

/-- What one step contributes. -/
def contribution (engine : Engine) (moduleId : String) :
    (String × Registered) ⊕ (Entry × Nat) → Script Contribution
  | .inl (id, registered) => do
    let values ← engine.sources.resolve registered.rule.contextId registered.rule.deps
    pure (ruleContribution id registered values)
  | .inr (entry, index) =>
    pure ⟨.external moduleId index entry.effectivePriority, entry.fragment⟩

/-- What all steps contribute, in order. -/
def contributions (engine : Engine) (moduleId : String) :
    List ((String × Registered) ⊕ (Entry × Nat)) → Script (List Contribution)
  | [] => pure []
  | step :: rest => do
    let first ← engine.contribution moduleId step
    let others ← engine.contributions moduleId rest
    pure (first :: others)

/-- The explanation of a request, as a script. -/
def explanation (engine : Engine) (query : Query) : Script Explanation := do
  let plan ← Script.ofOutcome (engine.plan query)
  let entries ← engine.externalEntries plan
  let steps ← Script.ofOutcome (engine.steps plan entries)
  let contributions ← engine.contributions plan.moduleId steps
  pure { moduleId := plan.moduleId, annotationId := plan.annotationId, chain := plan.chain,
         contributions }

/-- The configuration of a request, as a script. -/
def selection (engine : Engine) (query : Query) : Script (Option Json) := do
  let explanation ← engine.explanation query
  Script.ofOutcome explanation.result

/-! ## Answering at once -/

/-- The external entries for a plan, if they can be had at once. -/
def externalEntriesReady (engine : Engine) (plan : Plan) : Outcome (List Entry) :=
  match engine.provider, plan.annotationId with
  | some provider, none => do
    let entries ← provider.entriesReady plan.moduleId
    pure (entries.getD [])
  | _, _ => .ok []

/-- What one step contributes, from what is at hand. -/
def contributionReady (engine : Engine) (cells : Cells) (moduleId : String) :
    (String × Registered) ⊕ (Entry × Nat) → Outcome Contribution
  | .inl (id, registered) => do
    let values ← engine.sources.resolveReady cells registered.rule.contextId
      registered.rule.deps
    pure (ruleContribution id registered values)
  | .inr (entry, index) => .ok ⟨.external moduleId index entry.effectivePriority, entry.fragment⟩

/-- The explanation of a request from what is at hand. -/
def explain (engine : Engine) (cells : Cells) (query : Query) : Outcome Explanation := do
  let plan ← engine.plan query
  let entries ← engine.externalEntriesReady plan
  let steps ← engine.steps plan entries
  let contributions ← steps.mapM (engine.contributionReady cells plan.moduleId)
  pure { moduleId := plan.moduleId, annotationId := plan.annotationId, chain := plan.chain,
         contributions }

/-- The configuration of a request from what is at hand. -/
def select (engine : Engine) (cells : Cells) (query : Query) : Outcome (Option Json) := do
  let explanation ← engine.explain cells query
  explanation.result

/-! ## Answering alone -/

/-- The explanation of a request, waiting and loading where needed. -/
def explainWaiting (engine : Engine) (cells : Cells) (query : Query) :
    Outcome Explanation × Cells :=
  (engine.explanation query).run cells

/-- The configuration of a request, waiting and loading where needed. -/
def selectWaiting (engine : Engine) (cells : Cells) (query : Query) :
    Outcome (Option Json) × Cells :=
  (engine.selection query).run cells

end Engine

end Strata
