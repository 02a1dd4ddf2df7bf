import Strata.Proofs.Malformed
import Strata.Proofs.Pointwise

/-!
# Laws of overlays

Whether an overlay faults does not depend on what it is laid on, and where it does not
fault it is laid key by key. Together this is one equation for the merge, `mergeOnto_eq`,
with no case left in which something is only known of outcomes that are there. The laws
below are laws of `laid`, and the equation carries them over to the merge.

Two overlays that share nothing but objects can be laid in either order. An object
without an operator is laid on what is there if that is an object, and on nothing
otherwise, and after that there is an object. So at a shared key the second object is
always laid on the first, and the question is the same one level below.

An overlay that is laid a second time finds its own values. An operator that is not `add`
puts down the same payload again, or lays it on itself; this is the same question for the
payload.
-/

namespace Strata.Merging

open Outcome (fault? fault?_eq_some fault?_eq_none)

/-! ## The merge as an equation -/

/-- A fragment over what is there. No operator is read off the fragment itself. -/
def overlaid (present : Option Json) : Json → Json
  | .object overlay => .object (laid (groundOf .merge present) overlay)
  | fragment => fragment

theorem overlaid_of_not_object {fragment : Json} (h : ∀ fields, fragment ≠ .object fields)
    (present : Option Json) : overlaid present fragment = fragment := by
  rw [overlaid]
  exact h

theorem tidy_overlaid {present : Option Json} (h : ∀ value, present = some value → Tidy value)
    (fragment : Json) : Tidy (overlaid present fragment) := by
  rcases object_or_not fragment with ⟨overlay, rfl⟩ | hobject
  · have hground := Tidy.ground h .merge
    exact tidy_laid hground fun key inner _ =>
      tidy_combine inner fun below hbelow => hground.value hbelow
  · rw [overlaid_of_not_object hobject]
    exact .other hobject

section Equation

variable {fragment : Json}

/-- A fragment is put over what is there, unless it is malformed. -/
theorem mergeOnto_eq {present : Option Json} (htidy : ∀ value, present = some value → Tidy value)
    (hdistinct : Distinct fragment) :
    mergeOnto present fragment =
      match malformed? fragment with
      | none => .ok (some (overlaid present fragment))
      | some fault => .error fault := by
  have hfault := fault?_mergeOnto present fragment
  cases hmalformed : malformed? fragment with
  | some fault =>
      rw [hmalformed] at hfault
      exact fault?_eq_some.mp hfault
  | none =>
      rw [hmalformed] at hfault
      obtain ⟨result, hresult⟩ := fault?_eq_none.mp hfault
      rw [hresult]
      rcases object_or_not fragment with ⟨overlay, rfl⟩ | hobject
      · rw [mergeOnto_object] at hresult
        obtain ⟨merged, hmerged, rfl⟩ := Outcome.map_eq_ok.mp hresult
        rw [mergeFields_laid (Tidy.ground htidy .merge) hdistinct hmerged]
        rfl
      · rw [mergeOnto_of_not_object hobject] at hresult
        rw [overlaid_of_not_object hobject]
        exact hresult.symm

theorem mergePair_eq {base : Json} (htidy : Tidy base) (hdistinct : Distinct fragment) :
    mergePair base fragment =
      match malformed? fragment with
      | none => .ok (overlaid (some base) fragment)
      | some fault => .error fault := by
  have honto := mergeOnto_eq (tidy_of_some htidy) hdistinct
  rw [mergeOnto] at honto
  cases hmalformed : malformed? fragment with
  | none =>
      rw [hmalformed] at honto
      obtain ⟨value, hvalue, hsome⟩ := Outcome.map_eq_ok.mp honto
      rw [hvalue, Option.some.inj hsome]
  | some fault =>
      rw [hmalformed] at honto
      have hfault := fault?_mergePair base fragment
      rw [hmalformed] at hfault
      exact fault?_eq_some.mp hfault

theorem malformed?_of_alone {value : Option Json} (h : mergeFragments [fragment] = .ok value) :
    malformed? fragment = none := by
  rw [← fault?_alone]
  exact fault?_eq_none.mpr ⟨value, h⟩

end Equation

/-! ## Overlays that share objects only -/

theorem groundOf_byShape (present : Option Json) (overlay : Fields Json) :
    groundOf (Operator.byShape present (.object overlay)) present = groundOf .merge present := by
  rcases present with _ | value
  · rfl
  · cases value <;> rfl

theorem wrapped?_eq_none {overlay : Fields Json}
    (h : Fields.get? Operator.key overlay = none) : wrapped? (.object overlay) = none := by
  rw [wrapped?, h]

/-- An object that is no wrapper is laid on the object that is there, if one is. -/
theorem combine_object {overlay : Fields Json} (h : wrapped? (.object overlay) = none)
    (present : Option Json) :
    combine present (.object overlay) = .object (laid (groundOf .merge present) overlay) := by
  have hread : reading present (.object overlay)
      = (Operator.byShape present (.object overlay), .object overlay) := by
    rw [reading, h]
    rfl
  rw [combine_of_object hread, groundOf_byShape]

/-- At the keys that both hold, both hold objects that name no operator and are compatible
again. -/
inductive Compatible : Fields Json → Fields Json → Prop
  | intro {left right : Fields Json}
      (hobjects : ∀ key x y, Fields.get? key left = some x → Fields.get? key right = some y →
        ∃ inner inner', x = .object inner ∧ y = .object inner'
          ∧ Fields.get? Operator.key inner = none ∧ Fields.get? Operator.key inner' = none)
      (hinner : ∀ key inner inner', Fields.get? key left = some (.object inner) →
        Fields.get? key right = some (.object inner') → Compatible inner inner') :
      Compatible left right

/-- Compatible overlays are laid on anything in either order. -/
theorem Compatible.laid_comm {left right : Fields Json} (h : Compatible left right)
    (base : Fields Json) : laid (laid base left) right = laid (laid base right) left := by
  induction h generalizing base with
  | @intro left right hobjects _ ih =>
      refine Fields.eq_of_get?_eq sorted_laid sorted_laid fun key => ?_
      rw [get?_laid, get?_laid, laidAt, laidAt, get?_laid, get?_laid, laidAt, laidAt]
      cases hx : Fields.get? key left with
      | none => cases Fields.get? key right <;> rfl
      | some x =>
          cases hy : Fields.get? key right with
          | none => rfl
          | some y =>
              obtain ⟨inner, inner', rfl, rfl, hplain, hplain'⟩ := hobjects key x y hx hy
              dsimp only
              have hleft := combine_object (wrapped?_eq_none hplain)
              have hright := combine_object (wrapped?_eq_none hplain')
              rw [hleft, hright, hleft, hright]
              exact congrArg (some ∘ Json.object) (ih key inner inner' hx hy _)

section Commute

variable {base : Json} {left right : Fields Json}

theorem mergePair_mergePair (hbase : Tidy base) (hleft : Distinct (.object left))
    (hright : Distinct (.object right)) (hleftWell : malformed? (.object left) = none)
    (hrightWell : malformed? (.object right) = none) :
    (mergePair base (.object left) >>= fun first => mergePair first (.object right))
      = .ok (.object (laid (laid (groundOf .merge (some base)) left) right)) := by
  have hsecond := mergePair_eq (tidy_overlaid (tidy_of_some hbase) (.object left)) hright
  rw [hrightWell] at hsecond
  rw [mergePair_eq hbase hleft, hleftWell]
  exact hsecond

/-- Overlays that are compatible and merge alone can be laid on anything in either order. -/
theorem overlays_commute (base : Json) (left right : Fields Json) (hbase : Tidy base)
    (hleft : Distinct (.object left)) (hright : Distinct (.object right))
    (hcompatible : Compatible left right)
    (hleftAlone : ∃ value, mergeFragments [.object left] = .ok value)
    (hrightAlone : ∃ value, mergeFragments [.object right] = .ok value) :
    ∃ value,
      (mergePair base (.object left) >>= fun first => mergePair first (.object right)) = .ok value
      ∧ (mergePair base (.object right) >>= fun first => mergePair first (.object left))
        = .ok value := by
  obtain ⟨_, hleftAlone⟩ := hleftAlone
  obtain ⟨_, hrightAlone⟩ := hrightAlone
  have hleftWell := malformed?_of_alone hleftAlone
  have hrightWell := malformed?_of_alone hrightAlone
  refine ⟨_, mergePair_mergePair hbase hleft hright hleftWell hrightWell, ?_⟩
  rw [hcompatible.laid_comm]
  exact mergePair_mergePair hbase hright hleft hrightWell hleftWell

end Commute

/-- Two overlays that share a key at which `plain` holds a text. -/
def panel : Fields Json :=
  [("edge", .object [("width", .integer 1)]),
    ("tags", .object [("$op", .text "add"), ("value", .array [.integer 2])])]

def frame : Fields Json :=
  [("edge", .object [("colour", .object [("$op", .text "replace"), ("value", .null)])]),
    ("title", .text "frame")]

def plain : Json :=
  .object [("edge", .text "thin"), ("tags", .array [.integer 1])]

theorem plain_wellFormed : plain.WellFormed := by
  simp only [plain, Json.WellFormed, Json.FieldsWellFormed, Json.AllWellFormed, and_true]
  decide

theorem panelAndFrame_commute :
    Compatible panel frame
    ∧ (∃ value, mergeFragments [.object panel] = .ok value)
    ∧ (∃ value, mergeFragments [.object frame] = .ok value)
    ∧ ∃ value,
      (mergePair plain (.object panel) >>= fun first => mergePair first (.object frame)) = .ok value
      ∧ (mergePair plain (.object frame) >>= fun first => mergePair first (.object panel))
        = .ok value := by
  have hpanel : Distinct (.object panel) := distinct_of_wellFormed (by
    simp only [panel, Json.WellFormed, Json.FieldsWellFormed, Json.AllWellFormed, and_true]
    decide)
  have hframe : Distinct (.object frame) := distinct_of_wellFormed (by
    simp only [frame, Json.WellFormed, Json.FieldsWellFormed, and_true]
    decide)
  have hshared : ∀ key x y, Fields.get? key panel = some x → Fields.get? key frame = some y →
      x = .object [("width", .integer 1)]
        ∧ y = .object [("colour", .object [("$op", .text "replace"), ("value", .null)])] := by
    intro key x y hx hy
    rcases List.mem_cons.mp (Fields.mem_of_get? hx) with hedge | htags
    · cases hedge
      cases hy
      exact ⟨rfl, rfl⟩
    · cases List.mem_singleton.mp htags
      cases hy
  have hcompatible : Compatible panel frame := by
    refine .intro ?_ ?_
    · intro key x y hx hy
      obtain ⟨rfl, rfl⟩ := hshared key x y hx hy
      exact ⟨_, _, rfl, rfl, rfl, rfl⟩
    · intro key inner inner' hx hy
      obtain ⟨hinner, hinner'⟩ := hshared key _ _ hx hy
      cases hinner
      cases hinner'
      refine .intro ?_ ?_
      · intro key x y hx hy
        cases List.mem_singleton.mp (Fields.mem_of_get? hx)
        cases hy
      · intro key x y hx hy
        cases List.mem_singleton.mp (Fields.mem_of_get? hx)
  have hpanelAlone : ∃ value, mergeFragments [.object panel] = .ok value := by
    refine ⟨some (.object [("edge", .object [("width", .integer 1)]),
      ("tags", .array [.integer 2])]), ?_⟩
    cbv
  have hframeAlone : ∃ value, mergeFragments [.object frame] = .ok value := by
    refine ⟨some (.object [("edge", .object [("colour", .null)]), ("title", .text "frame")]), ?_⟩
    cbv
  exact ⟨hcompatible, hpanelAlone, hframeAlone,
    overlays_commute plain panel frame (tidy_of_wellFormed plain_wellFormed) hpanel hframe
      hcompatible hpanelAlone hframeAlone⟩

/-! ## Overlays without `add` -/

/-- No object of the value, outside arrays, names `add` as its operator. -/
abbrev WithoutAdd : Json → Prop :=
  Throughout fun fields => Fields.get? Operator.key fields ≠ some (.text Operator.add.name)

theorem exists_of_wrapped? {incoming payload : Json} {op : Operator}
    (h : wrapped? incoming = some (op, payload)) :
    ∃ fields, incoming = .object fields ∧ payload = Operator.payload fields
      ∧ Fields.get? Operator.key fields = some (.text op.name) := by
  unfold wrapped? at h
  split at h
  · next fields =>
      split at h
      · next name hname =>
          obtain ⟨found, hfound, hpair⟩ := Option.map_eq_some_iff.mp h
          cases hpair
          have hop := List.find?_some hfound
          rw [decide_eq_true_eq] at hop
          exact ⟨fields, rfl, rfl, hop ▸ hname⟩
      · cases h
  · cases h

theorem reading_of_wrapped? {incoming : Json} {found : Operator × Json}
    (h : wrapped? incoming = some found) (present : Option Json) :
    reading present incoming = found := by
  rw [reading, h, Option.getD_some]

theorem settled_of_ne_add {op : Operator} (h : op ≠ .add) (present : Option Json)
    (payload : Json) : settled op present payload = payload := by
  unfold settled
  split
  · exact absurd rfl h
  · rfl

theorem combine_of_scalar {incoming : Json} (h : ∀ fields, incoming ≠ .object fields)
    (present : Option Json) : combine present incoming = incoming := by
  have hwrapped : wrapped? incoming = none := by
    rw [wrapped?]
    exact h
  have hshape : Operator.byShape present incoming = .replace := by
    rw [Operator.byShape]
    exact fun _ overlay _ hincoming => h overlay hincoming
  have hread : reading present incoming = (.replace, incoming) := by
    rw [reading, hwrapped, Option.getD_none, hshape]
  rw [combine_of_not_object hread h]
  have hop : Operator.replace ≠ .add := by decide
  exact settled_of_ne_add hop present incoming

/-- An overlay whose values change nothing the second time changes nothing either. -/
theorem laid_again {base overlay : Fields Json}
    (h : ∀ key value, Fields.get? key overlay = some value →
      ∀ present, combine (some (combine present value)) value = combine present value) :
    laid (laid base overlay) overlay = laid base overlay := by
  refine Fields.eq_of_get?_eq sorted_laid sorted_laid fun key => ?_
  rw [get?_laid, laidAt, get?_laid, laidAt]
  cases hheld : Fields.get? key overlay with
  | none => rfl
  | some value => exact congrArg some (h key value hheld _)

/-- The value that an incoming one without `add` has come to is what it comes to again. -/
theorem combine_again (incoming : Json) (hadd : WithoutAdd incoming) (present : Option Json) :
    combine (some (combine present incoming)) incoming = combine present incoming := by
  cases hwrapped : wrapped? incoming with
  | none =>
      rcases object_or_not incoming with ⟨overlay, rfl⟩ | hobject
      · rw [combine_object hwrapped, combine_object hwrapped]
        refine congrArg Json.object (laid_again fun key value hheld below => ?_)
        have hsmaller := sizeOf_lt_of_held hheld (Nat.le_refl _)
        exact combine_again value (hadd.value hheld) below
      · rw [combine_of_scalar hobject, combine_of_scalar hobject]
  | some found =>
      obtain ⟨op, payload⟩ := found
      have hread := reading_of_wrapped? hwrapped
      obtain ⟨fields, rfl, rfl, hname⟩ := exists_of_wrapped? hwrapped
      have hop : op ≠ .add := fun heq => hadd.here (heq ▸ hname)
      rcases object_or_not (Operator.payload fields) with ⟨overlay, hpayload⟩ | hobject
      · rw [hpayload] at hread
        rw [combine_of_object (hread _), combine_of_object (hread _)]
        have hinner : WithoutAdd (.object overlay) := hpayload ▸ hadd.payload
        have hsize := sizeOf_reading_le none (.object fields)
        rw [hread] at hsize
        have hagain : ∀ base, laid (laid base overlay) overlay = laid base overlay := by
          intro base
          refine laid_again fun key value hheld below => ?_
          have hsmaller := sizeOf_lt_of_held hheld hsize
          exact combine_again value (hinner.value hheld) below
        cases op with
        | replace => rfl
        | merge => exact congrArg Json.object (hagain _)
        | add => exact absurd rfl hop
      · rw [combine_of_not_object (hread _) hobject, combine_of_not_object (hread _) hobject,
          settled_of_ne_add hop, settled_of_ne_add hop]
termination_by sizeOf incoming

theorem overlaid_again {fragment : Json} (hadd : WithoutAdd fragment) (present : Option Json) :
    overlaid (some (overlaid present fragment)) fragment = overlaid present fragment := by
  rcases object_or_not fragment with ⟨overlay, rfl⟩ | hobject
  · exact congrArg Json.object
      (laid_again fun _ value hheld below => combine_again value (hadd.value hheld) below)
  · rw [overlaid_of_not_object hobject, overlaid_of_not_object hobject]

theorem mergeOnto_again {fragment : Json} (hdistinct : Distinct fragment)
    (hadd : WithoutAdd fragment) {present : Option Json}
    (htidy : ∀ value, present = some value → Tidy value) :
    (mergeOnto present fragment >>= fun next => mergeOnto next fragment)
      = mergeOnto present fragment := by
  rw [mergeOnto_eq htidy hdistinct]
  cases hmalformed : malformed? fragment with
  | some fault => rfl
  | none =>
      have hsecond := mergeOnto_eq (tidy_of_some (tidy_overlaid htidy fragment)) hdistinct
      rw [hmalformed] at hsecond
      exact hsecond.trans (congrArg (Except.ok ∘ some) (overlaid_again hadd present))

/-- A fragment without `add` that has been laid on a value changes nothing when it is laid
there again; and so it may stand twice in a row among fragments. -/
theorem repeated_without_add (fragment : Json) (hdistinct : Distinct fragment)
    (hadd : WithoutAdd fragment) :
    (∀ base result, Tidy base → mergePair base fragment = .ok result →
      mergePair result fragment = .ok result)
    ∧ ∀ before behind, (∀ earlier ∈ before, Distinct earlier) →
      mergeFragments (before ++ fragment :: fragment :: behind)
        = mergeFragments (before ++ fragment :: behind) := by
  constructor
  · intro base result htidy hmerge
    have hagain := mergeOnto_again hdistinct hadd (tidy_of_some htidy)
    rw [mergeOnto, hmerge] at hagain
    obtain ⟨value, hvalue, hsome⟩ := Outcome.map_eq_ok.mp hagain
    rw [hvalue, Option.some.inj hsome]
  · intro before behind hbefore
    rw [mergeFragments, mergeFragments, List.foldlM_append, List.foldlM_append]
    cases hmerge : before.foldlM mergeOnto none with
    | error fault => rfl
    | ok present =>
        have hagain := mergeOnto_again hdistinct hadd
          (follows_of_mergeFragments hbefore hmerge).tidy
        show ((fragment :: fragment :: behind).foldlM mergeOnto present)
          = (fragment :: behind).foldlM mergeOnto present
        simp only [List.foldlM_cons]
        rw [← bind_assoc, hagain]

/-- A wrapper that holds a wrapper, and an array that is put down as it is. -/
def restated : Json :=
  .object [("edge", .object [("$op", .text "replace"), ("value",
    .object [("$op", .text "merge"), ("value", .object [("width", .null)])])]),
    ("tags", .array [.integer 1])]

theorem restated_again :
    WithoutAdd restated
    ∧ ∃ result, mergePair plain restated = .ok result ∧ mergePair result restated = .ok result
      ∧ mergeFragments [plain, restated, restated] = mergeFragments [plain, restated] := by
  have hreplace : some (Json.text "replace") ≠ some (.text "add") := fun h =>
    absurd (Json.text.inj (Option.some.inj h)) (by decide)
  have hmerge : some (Json.text "merge") ≠ some (.text "add") := fun h =>
    absurd (Json.text.inj (Option.some.inj h)) (by decide)
  have hadd : WithoutAdd restated := by
    unfold restated
    refine .of_entries nofun (List.forall_mem_cons.mpr
      ⟨.of_entries hreplace (List.forall_mem_cons.mpr
        ⟨.other nofun, List.forall_mem_singleton.mpr ?_⟩),
        List.forall_mem_singleton.mpr (.other nofun)⟩)
    refine .of_entries hmerge (List.forall_mem_cons.mpr
      ⟨.other nofun, List.forall_mem_singleton.mpr ?_⟩)
    exact .of_entries nofun (List.forall_mem_singleton.mpr (.other nofun))
  have hrestated : Distinct restated := distinct_of_wellFormed (by
    simp only [restated, Json.WellFormed, Json.FieldsWellFormed, Json.AllWellFormed, and_true]
    decide)
  have hbefore : ∀ earlier ∈ [plain], Distinct earlier :=
    List.forall_mem_singleton.mpr (distinct_of_wellFormed plain_wellFormed)
  have hresult : mergePair plain restated = .ok (.object [("edge", .object [("$op", .text "merge"),
      ("value", .object [("width", .null)])]), ("tags", .array [.integer 1])]) := by cbv
  obtain ⟨hagain, hlist⟩ := repeated_without_add restated hrestated hadd
  exact ⟨hadd, _, hresult, hagain plain _ (tidy_of_wellFormed plain_wellFormed) hresult,
    hlist [plain] [] hbefore⟩

end Strata.Merging
