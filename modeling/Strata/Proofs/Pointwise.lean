import Mathlib.Data.List.Forall2
import Mathlib.Data.List.Induction
import Strata.Proofs.Merging

/-!
# A merge of fragments, key by key

A fragment that is no object wipes out what came before it, and the objects behind the
last such fragment are laid on one another. `trailing` are these objects. At each key
the merge is the fold of the values that they hold there: this is kept from fragment to
fragment, and since the fold begins with nothing and what is wiped out holds nothing,
one equation covers both kinds of fragment.

`combine` asks an incoming object for what it holds at a key and never for the order
in which it lists its keys. So neither does the merge: fragments whose objects list
the same entries in other orders, at whatever depth, have the same values.
-/

namespace Strata

def Json.isObject : Json → Bool
  | .object _ => true
  | _ => false

theorem Json.isObject_eq_false {value : Json} (h : ∀ fields, value ≠ .object fields) :
    value.isObject = false := by
  cases value with
  | object fields => exact absurd rfl (h fields)
  | null | boolean _ | integer _ | real _ | text _ | array _ => rfl

namespace Merging

/-- The fragments behind the last one that is no object. -/
def trailing (fragments : List Json) : List Json :=
  (fragments.reverse.takeWhile Json.isObject).reverse

/-- The values that the trailing fragments hold at a key, in order. -/
def heldAt (key : String) (fragments : List Json) : List Json :=
  (trailing fragments).filterMap (Json.field? key)

/-- Values laid on one another, from nothing on. -/
def stack (values : List Json) : Option Json :=
  values.foldl (fun present incoming => some (combine present incoming)) none

section Trailing

variable {fragments : List Json} {key : String}

theorem trailing_object (overlay : Fields Json) :
    trailing (fragments ++ [.object overlay]) = trailing fragments ++ [.object overlay] := by
  rw [trailing, List.reverse_concat, List.takeWhile_cons_of_pos rfl, List.reverse_cons]
  rfl

theorem trailing_of_not_object {fragment : Json} (h : fragment.isObject = false) :
    trailing (fragments ++ [fragment]) = [] := by
  have hstop : ¬ fragment.isObject = true := by
    rw [h]
    exact Bool.false_ne_true
  rw [trailing, List.reverse_concat, List.takeWhile_cons_of_neg hstop]
  rfl

theorem stack_heldAt_object (overlay : Fields Json) :
    stack (heldAt key (fragments ++ [.object overlay])) =
      match Fields.get? key overlay with
      | none => stack (heldAt key fragments)
      | some value => some (combine (stack (heldAt key fragments)) value) := by
  rw [heldAt, trailing_object, List.filterMap_append]
  cases hheld : Fields.get? key overlay with
  | none =>
      have hfield : Json.field? key (.object overlay) = none := hheld
      rw [List.filterMap_cons_none hfield, List.filterMap_nil, List.append_nil]
      rfl
  | some value =>
      have hfield : Json.field? key (.object overlay) = some value := hheld
      rw [List.filterMap_cons_some hfield, List.filterMap_nil, stack, List.foldl_concat]
      rfl

theorem isSome_stack_iff (values : List Json) : (stack values).isSome ↔ values ≠ [] := by
  induction values using List.reverseRecOn with
  | nil => exact ⟨fun h => (Bool.false_ne_true h).elim, fun h => absurd rfl h⟩
  | append_singleton front last _ =>
      rw [stack, List.foldl_concat]
      exact ⟨fun _ => List.append_ne_nil_of_right_ne_nil _ (List.cons_ne_nil _ _), fun _ => rfl⟩

theorem isSome_stack_heldAt_iff :
    (stack (heldAt key fragments)).isSome ↔
      ∃ fragment ∈ trailing fragments, (fragment.field? key).isSome := by
  rw [isSome_stack_iff, heldAt, ne_eq, List.filterMap_eq_nil_iff]
  constructor
  · intro h
    obtain ⟨fragment, hnot⟩ := Classical.not_forall.mp h
    obtain ⟨hmem, hheld⟩ := Classical.not_imp.mp hnot
    exact ⟨fragment, hmem, Option.isSome_iff_ne_none.mpr hheld⟩
  · rintro ⟨fragment, hmem, hheld⟩ h
    rw [h fragment hmem] at hheld
    cases hheld

end Trailing

/-! ## Fragment by fragment -/

theorem mergeFragments_concat (fragments : List Json) (fragment : Json) :
    mergeFragments (fragments ++ [fragment])
      = mergeFragments fragments >>= fun present => mergeOnto present fragment := by
  rw [mergeFragments, List.foldlM_append]
  simp only [List.foldlM_cons, List.foldlM_nil, bind_pure]
  rfl

theorem groundOf_of_not_object {value : Json} (h : ∀ fields, value ≠ .object fields) :
    groundOf .merge (some value) = [] := by
  rw [groundOf]
  exact fun fields _ hvalue => absurd (Option.some.inj hvalue) (h fields)

theorem mergeOnto_object (present : Option Json) (overlay : Fields Json) :
    mergeOnto present (.object overlay) =
      (some ∘ Json.object) <$> mergeFields (groundOf .merge present) overlay := by
  rw [mergeOnto_eq_mergeValue, mergeValue_object, comp_map]

theorem mergeOnto_of_not_object {fragment : Json} (h : ∀ fields, fragment ≠ .object fields)
    (present : Option Json) : mergeOnto present fragment = .ok (some fragment) := by
  have hsettled : settled .merge present fragment = fragment := rfl
  rw [mergeOnto_eq_mergeValue, mergeValue_of_not_object h, hsettled]
  rfl

/-- What the merge has come to follows the fragments so far. -/
structure Follows (fragments : List Json) (present : Option Json) : Prop where
  tidy : ∀ value, present = some value → Tidy value
  lookups : ∀ key, Fields.get? key (groundOf .merge present) = stack (heldAt key fragments)

theorem follows_nil : Follows [] none where
  tidy := fun value h => by cases h
  lookups := fun _ => rfl

theorem Follows.concat {fragments : List Json} {fragment : Json} {present result : Option Json}
    (h : Follows fragments present) (hdistinct : Distinct fragment)
    (hmerge : mergeOnto present fragment = .ok result) :
    Follows (fragments ++ [fragment]) result := by
  rcases object_or_not fragment with ⟨overlay, rfl⟩ | hobject
  · rw [mergeOnto_object] at hmerge
    obtain ⟨merged, hmerged, rfl⟩ := Outcome.map_eq_ok.mp hmerge
    have hground := Tidy.ground h.tidy .merge
    rw [mergeFields_laid hground hdistinct hmerged]
    refine ⟨?_, fun key => ?_⟩
    · intro value hvalue
      cases hvalue
      exact tidy_laid hground fun key inner _ =>
        tidy_combine inner fun below hbelow => hground.value hbelow
    · have hlaid : Fields.get? key (laid (groundOf .merge present) overlay)
          = laidAt (groundOf .merge present) overlay key := get?_laid
      rw [stack_heldAt_object, ← h.lookups]
      exact hlaid
  · rw [mergeOnto_of_not_object hobject] at hmerge
    cases hmerge
    refine ⟨?_, fun key => ?_⟩
    · intro value hvalue
      cases hvalue
      exact .other hobject
    · rw [groundOf_of_not_object hobject, heldAt,
        trailing_of_not_object (Json.isObject_eq_false hobject)]
      rfl

theorem follows_of_mergeFragments {fragments : List Json} {result : Option Json}
    (hdistinct : ∀ fragment ∈ fragments, Distinct fragment)
    (h : mergeFragments fragments = .ok result) : Follows fragments result := by
  induction fragments using List.reverseRecOn generalizing result with
  | nil =>
      cases h
      exact follows_nil
  | append_singleton front last ih =>
      rw [mergeFragments_concat] at h
      obtain ⟨present, hpresent, hmerge⟩ := Outcome.bind_eq_ok.mp h
      obtain ⟨hfront, hlast⟩ := List.forall_mem_append.mp hdistinct
      exact (ih hfront hpresent).concat (hlast last (List.mem_singleton_self last)) hmerge

/-! ## The order of keys -/

/-- Values that differ at most in the orders in which their objects, outside arrays,
list their entries. -/
inductive SameEntries : Json → Json → Prop
  | refl (value : Json) : SameEntries value value
  | object {left right : Fields Json} (hkeys : (Fields.keys left).Perm (Fields.keys right))
      (hvalues : ∀ key x y, Fields.get? key left = some x → Fields.get? key right = some y →
        SameEntries x y) :
      SameEntries (.object left) (.object right)

/-- Whether a key is looked up on one side or the other makes no difference. -/
theorem SameEntries.lookups {left right : Fields Json}
    (hkeys : (Fields.keys left).Perm (Fields.keys right)) (key : String) :
    (Fields.get? key left = none ∧ Fields.get? key right = none)
      ∨ ∃ x y, Fields.get? key left = some x ∧ Fields.get? key right = some y := by
  cases hleft : Fields.get? key left with
  | none =>
      rw [Fields.get?_eq_none_iff, hkeys.mem_iff, ← Fields.get?_eq_none_iff] at hleft
      exact .inl ⟨rfl, hleft⟩
  | some x =>
      have hmem : key ∈ Fields.keys right := by
        rw [← hkeys.mem_iff, ← Fields.isSome_get?_iff, hleft]
        rfl
      obtain ⟨y, hy⟩ := Option.isSome_iff_exists.mp (Fields.isSome_get?_iff.mpr hmem)
      exact .inr ⟨x, y, rfl, hy⟩

theorem SameEntries.payload {left right : Fields Json}
    (hkeys : (Fields.keys left).Perm (Fields.keys right))
    (hvalues : ∀ key x y, Fields.get? key left = some x → Fields.get? key right = some y →
      SameEntries x y) :
    SameEntries (Operator.payload left) (Operator.payload right) := by
  rw [Operator.payload, Operator.payload]
  rcases SameEntries.lookups hkeys Operator.payloadKey with
    ⟨hleft, hright⟩ | ⟨x, y, hleft, hright⟩
  · rw [hleft, hright]
    exact .refl _
  · rw [hleft, hright]
    exact hvalues _ x y hleft hright

theorem SameEntries.wrapped {left right : Fields Json}
    (hkeys : (Fields.keys left).Perm (Fields.keys right))
    (hvalues : ∀ key x y, Fields.get? key left = some x → Fields.get? key right = some y →
      SameEntries x y) :
    (wrapped? (.object left) = none ∧ wrapped? (.object right) = none)
      ∨ ∃ op, wrapped? (.object left) = some (op, Operator.payload left)
        ∧ wrapped? (.object right) = some (op, Operator.payload right) := by
  rw [wrapped?, wrapped?]
  rcases SameEntries.lookups hkeys Operator.key with ⟨hleft, hright⟩ | ⟨x, y, hleft, hright⟩
  · rw [hleft, hright]
    exact .inl ⟨rfl, rfl⟩
  · rw [hleft, hright]
    cases hvalues _ x y hleft hright with
    | object _ _ => exact .inl ⟨rfl, rfl⟩
    | refl =>
        cases x with
        | text name =>
            dsimp only
            cases [Operator.replace, .merge, .add].find? fun op => op.name = name with
            | none => exact .inl ⟨rfl, rfl⟩
            | some op => exact .inr ⟨op, rfl, rfl⟩
        | null | boolean _ | integer _ | real _ | array _ | object _ => exact .inl ⟨rfl, rfl⟩

/-- The same operator and the same payload are read, whatever the order. -/
theorem SameEntries.reading {left right : Json} (h : SameEntries left right)
    (present : Option Json) :
    (Merging.reading present left).1 = (Merging.reading present right).1
      ∧ SameEntries (Merging.reading present left).2 (Merging.reading present right).2 := by
  cases h with
  | refl => exact ⟨rfl, .refl _⟩
  | @object left right hkeys hvalues =>
      rw [Merging.reading, Merging.reading]
      rcases SameEntries.wrapped hkeys hvalues with ⟨hleft, hright⟩ | ⟨op, hleft, hright⟩
      · have hshape : Operator.byShape present (.object left)
            = Operator.byShape present (.object right) := by
          rcases present with _ | value
          · rfl
          · cases value <;> rfl
        rw [hleft, hright]
        exact ⟨hshape, .object hkeys hvalues⟩
      · rw [hleft, hright]
        exact ⟨rfl, SameEntries.payload hkeys hvalues⟩

/-- Values with the same entries combine alike. -/
theorem SameEntries.combine {left right : Json} (h : SameEntries left right)
    (present : Option Json) : Merging.combine present left = Merging.combine present right := by
  have hsize := sizeOf_reading_le present left
  obtain ⟨hop, hpayload⟩ := h.reading present
  rcases hleft : Merging.reading present left with ⟨op, payload⟩
  rcases hright : Merging.reading present right with ⟨op', payload'⟩
  rw [hleft] at hsize hop hpayload
  rw [hright] at hop hpayload
  cases hop
  cases hpayload with
  | refl =>
      rcases object_or_not payload with ⟨overlay, rfl⟩ | hobject
      · rw [combine_of_object hleft, combine_of_object hright]
      · rw [combine_of_not_object hleft hobject, combine_of_not_object hright hobject]
  | @object overlay overlay' hkeys hvalues =>
      rw [combine_of_object hleft, combine_of_object hright]
      refine congrArg Json.object (Fields.eq_of_get?_eq sorted_laid sorted_laid fun key => ?_)
      rw [get?_laid, get?_laid, laidAt, laidAt]
      rcases SameEntries.lookups hkeys key with ⟨hx, hy⟩ | ⟨x, y, hx, hy⟩
      · rw [hx, hy]
      · have hsmaller := sizeOf_lt_of_held hx hsize
        rw [hx, hy]
        exact congrArg some ((hvalues key x y hx hy).combine _)
termination_by sizeOf left

theorem stack_congr {left right : List Json} (h : List.Forall₂ SameEntries left right) :
    stack left = stack right := by
  suffices hfold : ∀ present : Option Json,
      left.foldl (fun present incoming => some (combine present incoming)) present
        = right.foldl (fun present incoming => some (combine present incoming)) present from
    hfold none
  induction h with
  | nil => exact fun _ => rfl
  | cons hhead _ ih =>
      intro present
      rw [List.foldl_cons, List.foldl_cons, hhead.combine present]
      exact ih _

/-! ## All fragments -/

/-- A merge of fragments is the last of them if that is no object. Otherwise it is an
object with the keys of the trailing fragments, which holds at each key what their
values there come to when they are laid on one another. So what it holds at a key
is settled by these values, up to the orders in which their entries are listed. -/
theorem mergeFragments_pointwise (fragments : List Json) (result : Option Json)
    (hne : fragments ≠ []) (hdistinct : ∀ fragment ∈ fragments, Distinct fragment)
    (h : mergeFragments fragments = .ok result) :
    ((fragments.getLast hne).isObject = false → result = some (fragments.getLast hne))
    ∧ ((fragments.getLast hne).isObject = true → ∃ fields, result = some (.object fields)
      ∧ Fields.Sorted fields
      ∧ (∀ key, key ∈ Fields.keys fields ↔
          ∃ fragment ∈ trailing fragments, (fragment.field? key).isSome)
      ∧ (∀ key, Fields.get? key fields = stack (heldAt key fragments))
      ∧ ∀ others fields', (∀ fragment ∈ others, Distinct fragment) →
          mergeFragments others = .ok (some (.object fields')) →
          ∀ key, List.Forall₂ SameEntries (heldAt key fragments) (heldAt key others) →
            Fields.get? key fields = Fields.get? key fields') := by
  have hfollows := follows_of_mergeFragments hdistinct h
  obtain ⟨front, last, rfl⟩ : ∃ front last, fragments = front ++ [last] :=
    ⟨_, _, (List.dropLast_concat_getLast hne).symm⟩
  rw [mergeFragments_concat] at h
  obtain ⟨present, -, hmerge⟩ := Outcome.bind_eq_ok.mp h
  rw [List.getLast_concat]
  rcases object_or_not last with ⟨overlay, rfl⟩ | hobject
  · refine ⟨fun hnot => (Bool.false_ne_true hnot.symm).elim, fun _ => ?_⟩
    rw [mergeOnto_object] at hmerge
    obtain ⟨merged, -, rfl⟩ := Outcome.map_eq_ok.mp hmerge
    have hlookups : ∀ key, Fields.get? key merged
        = stack (heldAt key (front ++ [.object overlay])) := hfollows.lookups
    refine ⟨merged, rfl, (hfollows.tidy _ rfl).here, fun key => ?_, hlookups, ?_⟩
    · rw [← Fields.isSome_get?_iff, hlookups, isSome_stack_heldAt_iff]
    · intro others fields' hothers hmerged key hsame
      have hother : Fields.get? key fields' = stack (heldAt key others) :=
        (follows_of_mergeFragments hothers hmerged).lookups key
      rw [hlookups, hother, stack_congr hsame]
  · refine ⟨fun _ => ?_, fun hyes => ?_⟩
    · rw [mergeOnto_of_not_object hobject] at hmerge
      cases hmerge
      rfl
    · rw [Json.isObject_eq_false hobject] at hyes
      cases hyes

/-- A list that is appended to behind a fragment that is wiped out. -/
def appendedFragments : List Json :=
  [.object [("other", .null)], .text "wiped",
    .object [("list", .array [.integer 1])],
    .object [("list", .object [("$op", .text "add"), ("value", .array [.integer 2])])]]

theorem appendedFragments_pointwise :
    mergeFragments appendedFragments
        = .ok (some (.object [("list", .array [.integer 1, .integer 2])]))
      ∧ stack (heldAt "list" appendedFragments) = some (.array [.integer 1, .integer 2]) := by
  have hmerge : mergeFragments appendedFragments
      = .ok (some (.object [("list", .array [.integer 1, .integer 2])])) := by cbv
  have hdistinct : ∀ fragment ∈ appendedFragments, Distinct fragment := by
    intro fragment hmem
    apply distinct_of_wellFormed
    simp only [appendedFragments, List.mem_cons, List.not_mem_nil, or_false] at hmem
    rcases hmem with rfl | rfl | rfl | rfl <;>
      simp only [Json.WellFormed, Json.AllWellFormed, Json.FieldsWellFormed, and_true] <;>
      decide
  obtain ⟨fields, hfields, -, -, hlookups, -⟩ := (mergeFragments_pointwise appendedFragments _
    (List.cons_ne_nil _ _) hdistinct hmerge).2 rfl
  cases hfields
  exact ⟨hmerge, (hlookups "list").symm⟩

end Merging

end Strata
