import Mathlib
import Strata.Proofs.Canonical
import Strata.Proofs.Depths

/-!
# Where the empty id comes from

A reference is refused if it leaves its context with no segment at all. But a context id
that begins with a slash has an empty segment in front of that slash, and no reference can
tell it from a name: it counts as a directory like any other. A reference that never leaves
it and comes down to it in the end is left with one segment, which is empty, and so is the
id that it is joined to. `ComesToNothing` says so by the count of segments alone, and there
is no other way to the empty id: names are never empty, and two segments have a slash
between them.

A registry neither makes an id empty nor makes the empty id anything else. So a rule
mentions the empty id exactly where a reference of its specification comes to nothing, and
none does in a set whose context id does not begin with a slash.
-/

namespace Strata

namespace Reference

theorem join_eq_empty_iff {pieces : List String} :
    join pieces = "" ↔ pieces = [] ∨ pieces = [""] := by
  constructor
  · intro h
    cases pieces with
    | nil => exact .inl rfl
    | cons first rest =>
        cases rest with
        | nil =>
            rw [join, String.intercalate_singleton] at h
            exact .inr (congrArg (fun piece => [piece]) h)
        | cons second more =>
            have hlist := congrArg String.toList h
            rw [join, String.toList_intercalate, List.map_cons, List.map_cons,
              List.intercalate_cons_cons] at hlist
            simp at hlist
  · intro h
    rcases h with rfl | rfl
    · decide
    · decide

/-- The first segment of a directory is empty if the context id begins with a slash. -/
theorem head?_directory_eq_empty_iff {context : String} :
    (directory context).head? = some "" ↔ context.toList.head? = some '/' := by
  have hslash : context.toList.head? = some '/' ↔ [] ++ ['/'] <+: context.toList := by
    rw [List.nil_append]
    cases context.toList with
    | nil => simp
    | cons first rest => simp [eq_comm]
  rw [hslash, Text.prefix_iff_runsBetween List.not_mem_nil, directory, segments, Text.pieces]
  constructor
  · intro h
    cases hruns : Text.runsBetween '/' context.toList with
    | nil => simp [hruns] at h
    | cons first rest =>
        cases rest with
        | nil => simp [hruns] at h
        | cons second more =>
            simp [hruns] at h
            exact ⟨second, more, by rw [h]⟩
  · intro h
    obtain ⟨second, rest, hruns⟩ := h
    simp [hruns]

/-- A reference that never leaves the segment in front of the first slash of its context id,
which is empty, and comes down to it. -/
structure ComesToNothing (context reference : String) : Prop where
  slash : context.toList.head? = some '/'
  relative : isRelative reference = true
  stays : ∀ depth ∈ passed context reference, 1 ≤ depth
  ends : (passed context reference).getLast? = some 1

theorem resolveIn_eq_empty_iff {context reference : String} :
    resolveIn context reference = .ok "" ↔
      follow (directory context).reverse (segments reference) = some [""] := by
  rw [resolveIn]
  constructor
  · intro h
    split at h
    · cases h
    · cases h
    · next trail hsome hfollow =>
        rw [hfollow]
        rcases join_eq_empty_iff.mp (Except.ok.inj h) with hnil | hone
        · exact absurd (List.reverse_eq_nil_iff.mp hnil) fun hnil => hsome hnil
        · rw [← List.reverse_reverse trail, hone, List.reverse_singleton]
  · intro h
    rw [h]
    rfl

theorem ne_empty_of_mem_kept {parts : List String} {name : String} (h : name ∈ kept parts) :
    name ≠ "" := by
  induction parts with
  | nil => cases h
  | cons part rest ih =>
      rw [kept] at h
      split at h
      · next hname =>
          rcases List.mem_cons.mp h with rfl | hrest
          · rintro rfl
            exact absurd hname.1 (by decide)
          · exact ih hrest
      · exact ih h

/-- What is left is the one empty segment if the depth stays above zero and ends at one. -/
theorem follow_eq_empty_iff {context reference : String} :
    follow (directory context).reverse (segments reference) = some [""] ↔
      context.toList.head? = some '/' ∧ (∀ depth ∈ passed context reference, 1 ≤ depth)
        ∧ (passed context reference).getLast? = some 1 := by
  rw [← head?_directory_eq_empty_iff, passed_eq]
  constructor
  · intro h
    obtain ⟨least, hleast, hreached⟩ := exists_least_of_follow h
    rw [List.reverse_reverse, List.reverse_singleton] at hreached
    -- The segment is empty, so it is no name that was kept but the directory's own.
    have hown : (directory context).take least = [""] := by
      rcases List.singleton_eq_append_iff.mp hreached with ⟨-, hkept⟩ | ⟨hown, -⟩
      · exact absurd rfl (ne_empty_of_mem_kept (by rw [hkept]; exact List.mem_singleton_self _))
      · exact hown
    refine ⟨?_, fun depth hmem => ?_, getLast?_depths_of_follow h⟩
    · have hhead := congrArg List.head? hown
      cases hdirectory : directory context with
      | nil => simp [hdirectory] at hown
      | cons first rest =>
          cases least with
          | zero => simp at hown
          | succ least => simpa [hdirectory] using hhead
    · have hpositive : 0 < least := by
        cases least with
        | zero => simp at hown
        | succ least => omega
      have hbelow := hleast.2 hmem
      omega
  · intro h
    obtain ⟨hhead, hstays, hends⟩ := h
    cases hfollow : follow (directory context).reverse (segments reference) with
    | none =>
        obtain ⟨depth, hmem, hbelow⟩ := follow_eq_none_iff.mp hfollow
        have := hstays depth hmem
        omega
    | some reached =>
        obtain ⟨least, hleast, hreached⟩ := exists_least_of_follow hfollow
        rw [List.reverse_reverse] at hreached
        have hpositive := hstays least hleast.1
        have hlength : reached.length = 1 := by
          have hends' := getLast?_depths_of_follow hfollow
          rw [hends] at hends'
          have := Option.some.inj hends'
          omega
        obtain ⟨rest, hdirectory⟩ : ∃ rest, directory context = "" :: rest :=
          List.head?_eq_some_iff.mp hhead
        obtain ⟨less, rfl⟩ : ∃ less, least = less + 1 := ⟨least - 1, by omega⟩
        obtain ⟨tail, htail⟩ : ∃ tail, reached.reverse = "" :: tail :=
          ⟨_, by rw [hreached, hdirectory, List.take_succ_cons, List.cons_append]⟩
        have hnil : tail.length = 0 := by
          have hone := congrArg List.length htail
          rw [List.length_reverse, hlength, List.length_cons] at hone
          omega
        rw [List.length_eq_zero_iff.mp hnil] at htail
        rw [← List.reverse_reverse reached, htail, List.reverse_singleton]

def LeadsToNothing (contextId : Option String) (reference : String) : Prop :=
  ∃ context, contextId = some context ∧ ComesToNothing context reference

/-- A reference denotes the empty id exactly if it comes to nothing in its context. -/
theorem resolve_eq_empty_iff {contextId : Option String} {reference : String} :
    resolve contextId reference = .ok "" ↔ LeadsToNothing contextId reference := by
  constructor
  · intro h
    unfold resolve at h
    split at h
    · cases h
    next hsome =>
      split at h
      · next hrelative =>
          split at h
          · cases h
          next context =>
            split at h
            · cases h
            · obtain ⟨hslash, hstays, hends⟩ :=
                follow_eq_empty_iff.mp (resolveIn_eq_empty_iff.mp h)
              exact ⟨context, rfl, hslash, hrelative, hstays, hends⟩
      · exact absurd (Except.ok.inj h) hsome
  · intro h
    obtain ⟨context, rfl, h⟩ := h
    have hcontext : context ≠ "" := by
      rintro rfl
      exact absurd h.slash (by decide)
    rw [resolve_relative hcontext h.relative]
    exact resolveIn_eq_empty_iff.mpr (follow_eq_empty_iff.mpr ⟨h.slash, h.stays, h.ends⟩)

end Reference

namespace Engine

variable {engine : Engine} {registry : Registry} (hgrown : registry.Grown)
  (hnames : registry.NamesNamed) (hmetadata : engine.metadata = registry.metadata)

include hgrown hnames hmetadata

/-- Only the empty id has the empty id as its canonical id. -/
theorem canonicalId_eq_empty_iff {id : String} : engine.canonicalId id = .ok "" ↔ id = "" := by
  rw [canonicalId_eq hgrown hnames hmetadata]
  cases hcanonical : registry.canonical? id with
  | none => simp
  | some canonical =>
      obtain ⟨hid, hfound⟩ := hgrown.named_of_leads hnames (Registry.leads_of_canonical? hcanonical)
      simp [hid, hfound]

theorem standsFor_empty_iff {contextId : Option String} {reference : String} :
    RuleSpec.StandsFor engine.canonicalId contextId reference "" ↔
      Reference.LeadsToNothing contextId reference := by
  rw [RuleSpec.StandsFor, ← Reference.resolve_eq_empty_iff]
  simp only [canonicalId_eq_empty_iff hgrown hnames hmetadata, exists_eq_right]

end Engine

/-- The empty id is among the ids that a rule mentions. -/
def Rule.MentionsEmpty (rule : Rule) : Prop :=
  "" ∈ rule.criteria.modules ∨ "" ∈ Accepted.listed rule.criteria.annotationIds ∨ "" ∈ rule.deps

theorem RuleSpec.Mentions.not_mentionsEmpty {spec : RuleSpec}
    {canonicalize : String → Outcome String} {contextId : Option String} {rule : Rule}
    (h : spec.Mentions canonicalize contextId rule)
    (hnone : ∀ reference, ¬ StandsFor canonicalize contextId reference "") :
    ¬ rule.MentionsEmpty := by
  intro hempty
  rcases hempty with hmem | hmem | hmem
  · obtain ⟨reference, -, hstands⟩ := (h.modules "").mp hmem
    exact hnone reference hstands
  · obtain ⟨reference, -, hstands⟩ := (h.annotations "").mp hmem
    exact hnone reference hstands
  · obtain ⟨reference, -, hstands⟩ := (h.deps "").mp hmem
    exact hnone reference hstands

/-- A reference denotes the empty id if its context id begins with a slash and it comes down
to what is in front of that, and not otherwise. Over a registry, however it was made, a rule
that is accepted selects, is scoped to or depends on the empty id exactly if a reference of
its specification in the same place denotes it. So where no context id begins with a slash,
no rule mentions the empty id, and none is kept under it. -/
theorem Engine.empty_only_below_slash (commands : List Registry.Command) (engine : Engine)
    (sets : List RuleSet)
    (hmetadata : engine.metadata = (Registry.afterCommands commands).metadata) :
    (∀ contextId reference, Reference.resolve contextId reference = .ok "" ↔
      Reference.LeadsToNothing contextId reference)
    ∧ (∀ rule ∈ engine.accepted sets, ∃ set ∈ sets, ∃ spec ∈ set.rules,
      spec.normalize engine.canonicalId set.contextId = .ok rule
      ∧ ("" ∈ rule.criteria.modules ↔ ∃ reference, some reference ∈ spec.select.modules
        ∧ Reference.LeadsToNothing set.contextId reference)
      ∧ ("" ∈ Accepted.listed rule.criteria.annotationIds ↔
        ∃ reference ∈ Accepted.listed spec.select.annotationIds,
          Reference.LeadsToNothing set.contextId reference)
      ∧ ("" ∈ rule.deps ↔ ∃ reference ∈ spec.deps,
        Reference.LeadsToNothing set.contextId reference))
    ∧ (∀ registered, registered ∈ (engine.afterSets sets).store.rulesFor "" ↔
      (engine.accepted sets)[registered.ordinal]? = some registered.rule
        ∧ "" ∈ registered.rule.criteria.modules)
    ∧ ((∀ set ∈ sets, ∀ context, set.contextId = some context →
        context.toList.head? ≠ some '/') →
      (∀ rule ∈ engine.accepted sets, ¬ rule.MentionsEmpty)
        ∧ (engine.afterSets sets).store.rulesFor "" = []) := by
  have hempty : ∀ contextId reference, RuleSpec.StandsFor engine.canonicalId contextId reference ""
      ↔ Reference.LeadsToNothing contextId reference := fun _ _ =>
    standsFor_empty_iff (Registry.grown_afterCommands commands)
      (Registry.namesNamed_afterCommands commands) hmetadata
  have hholds := holds_afterSets engine sets
  refine ⟨fun contextId reference => Reference.resolve_eq_empty_iff, fun rule hrule => ?_,
    fun registered => hholds.mem_rulesFor_iff, fun hslash => ?_⟩
  · obtain ⟨set, hset, spec, hspec, hnormalize⟩ := exists_spec_of_mem_accepted hrule
    have hmentions := RuleSpec.mentions_of_normalize hnormalize
    refine ⟨set, hset, spec, hspec, hnormalize, ?_, ?_, ?_⟩
    · rw [hmentions.modules]
      simp only [hempty]
    · rw [hmentions.annotations]
      simp only [hempty]
    · rw [hmentions.deps]
      simp only [hempty]
  · have hnone : ∀ rule ∈ engine.accepted sets, ¬ rule.MentionsEmpty := by
      intro rule hrule
      obtain ⟨set, hset, spec, -, hnormalize⟩ := exists_spec_of_mem_accepted hrule
      have hmentions := RuleSpec.mentions_of_normalize hnormalize
      refine hmentions.not_mentionsEmpty fun reference hstands => ?_
      obtain ⟨context, hcontext, hnothing⟩ := (hempty _ _).mp hstands
      exact hslash set hset context hcontext hnothing.slash
    refine ⟨hnone, List.eq_nil_iff_forall_not_mem.mpr fun registered hregistered => ?_⟩
    obtain ⟨hrule, hselects⟩ := hholds.mem_rulesFor_iff.mp hregistered
    exact hnone registered.rule (List.mem_of_getElem? hrule) (.inl hselects)

/-! ### Below a slash -/

namespace Engine

/-- A rule within a context id that begins with a slash. -/
def slashSet (modules deps : List String) : RuleSet where
  contextId := some "/rules"
  rules := [{
    select := { modules := modules.map some, annotationIds := some ⟨deps⟩ }
    deps
    apply := .fixed .empty }]

/-- A detour from the first slash and back to it, in one of two references. -/
theorem slashSet_mentions :
    ∃ rule ∈ (engineOf renames).accepted [slashSet ["./button"] ["../old/.././button", "./a/.."]],
      "" ∉ rule.criteria.modules ∧ "" ∈ rule.deps := by
  have hbutton : ¬ Reference.LeadsToNothing (some "/rules") "./button" := by
    intro hnothing
    obtain ⟨context, hcontext, hnothing⟩ := hnothing
    cases hcontext
    exact absurd hnothing.ends (by decide)
  have hdetour : Reference.LeadsToNothing (some "/rules") "./a/.." :=
    ⟨_, rfl, by decide, by decide, by decide, by decide⟩
  let rule : Rule := ⟨⟨["/button"], {}, some ⟨["button", ""]⟩⟩, ["button", ""], .fixed .empty,
    some "/rules", .zero⟩
  have hrule : (engineOf renames).accepted
      [slashSet ["./button"] ["../old/.././button", "./a/.."]] = [rule] := by cbv
  have hmem : rule ∈ (engineOf renames).accepted
      [slashSet ["./button"] ["../old/.././button", "./a/.."]] := by
    rw [hrule]
    exact List.mem_singleton_self rule
  obtain ⟨set, hset, spec, hspec, -, hmodules, -, hdeps⟩ :=
    (empty_only_below_slash renames (engineOf renames) _ rfl).2.1 rule hmem
  cases List.mem_singleton.mp hset
  cases List.mem_singleton.mp hspec
  refine ⟨rule, hmem, fun hempty => ?_, hdeps.mpr ⟨"./a/..", by decide, hdetour⟩⟩
  obtain ⟨reference, hreference, hnothing⟩ := hmodules.mp hempty
  cases List.mem_singleton.mp hreference
  exact hbutton hnothing

/-- The directory of a context id that begins with a slash denotes the empty id, and a rule
for it is kept under that, is scoped to it and depends on it. -/
theorem slashSet_nameless :
    Reference.resolve (some "/rules") "./" = .ok ""
      ∧ ∃ registered ∈ ((engineOf renames).afterSets [slashSet ["./"] ["./"]]).store.rulesFor "",
        "" ∈ Accepted.listed registered.rule.criteria.annotationIds
          ∧ "" ∈ registered.rule.deps := by
  let rule : Rule := ⟨⟨[""], {}, some ⟨[""]⟩⟩, [""], .fixed .empty, some "/rules", .zero⟩
  have hrule : (engineOf renames).accepted [slashSet ["./"] ["./"]] = [rule] := by cbv
  have hkept : (⟨rule, 0⟩ : Registered) ∈
      ((engineOf renames).afterSets [slashSet ["./"] ["./"]]).store.rulesFor "" := by
    rw [(holds_afterSets _ _).mem_rulesFor_iff, hrule]
    exact ⟨rfl, List.mem_singleton_self _⟩
  exact ⟨rfl, _, hkept, List.mem_singleton_self _, List.mem_singleton_self _⟩

end Engine

end Strata
