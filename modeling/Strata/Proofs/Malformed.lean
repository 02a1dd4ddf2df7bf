import Strata.Proofs.Merging

/-!
# Where a merge faults

What an overlay comes to depends on what it is laid on, and so does the way through the
merge: an object is merged into the object at its key, or resolved against nothing; an
array is appended, or put down. Where the merge faults does not depend on it. On every
way the wrappers of the overlay are met in the order of its entries, each before what
it wraps, and nothing but a wrapper can fault.

`malformed?` walks along the overlay alone and gives the fault of the first wrapper that
names no operator. It takes the three turns of the merge, from the fields of an object to
an entry, from an entry to its payload and from there to the fields of an object, and each
turn of the merge faults exactly with what its own turn of the walk gives.
-/

namespace Strata

namespace Outcome

variable {α β : Type}

/-- The fault that an outcome is, if it is one. -/
def fault? : Outcome α → Option Fault
  | .ok _ => none
  | .error fault => some fault

theorem fault?_eq_some {outcome : Outcome α} {fault : Fault} :
    fault? outcome = some fault ↔ outcome = .error fault := by
  cases outcome with
  | ok value => constructor <;> (intro h; cases h)
  | error other =>
      constructor
      · intro h
        cases h
        rfl
      · intro h
        cases h
        rfl

theorem fault?_eq_none {outcome : Outcome α} :
    fault? outcome = none ↔ ∃ value, outcome = .ok value := by
  cases outcome with
  | ok value => exact ⟨fun _ => ⟨value, rfl⟩, fun _ => rfl⟩
  | error fault =>
      constructor
      · intro h
        cases h
      · rintro ⟨value, h⟩
        cases h

theorem fault?_map (f : α → β) (outcome : Outcome α) :
    fault? (f <$> outcome) = fault? outcome := by
  cases outcome <;> rfl

/-- If the second step faults alike whatever the first gives, the two fault with the
fault of the first or else with that of the second. -/
theorem fault?_bind {outcome : Outcome α} {next : α → Outcome β} {later : Option Fault}
    (h : ∀ value, fault? (next value) = later) :
    fault? (outcome >>= next) = (fault? outcome).or later := by
  cases outcome with
  | ok value => exact h value
  | error fault => rfl

end Outcome

namespace Merging

open Outcome (fault? fault?_eq_some fault?_eq_none fault?_map fault?_bind)

/-! ## Along the overlay -/

mutual

/-- The fault of the first wrapper in a value that names no operator. -/
def malformed? : Json → Option Fault
  | .object fields => malformedIn? fields
  | _ => none
termination_by value => (sizeOf value, 0)

/-- The same for the value of an entry, which may be wrapped itself. -/
def malformedAt? (incoming : Json) : Option Fault :=
  match _unwrapped : Operator.unwrap incoming with
  | .error fault => some fault
  | .ok (_, payload) => malformed? payload
termination_by (sizeOf incoming, 1)
decreasing_by
  have := Operator.sizeOf_unwrap_le _unwrapped
  simp only [Prod.lex_def]
  omega

/-- The same for entries, one after the other. -/
def malformedIn? : List (String × Json) → Option Fault
  | [] => none
  | (_, incoming) :: rest => (malformedAt? incoming).or (malformedIn? rest)
termination_by overlay => (sizeOf overlay, 0)

end

theorem malformed?_of_not_object {value : Json} (h : ∀ fields, value ≠ .object fields) :
    malformed? value = none := by
  rw [malformed?]
  exact h

/-! ## Along the merge -/

mutual

theorem fault?_mergeValue (op : Operator) (present : Option Json) (incoming : Json) :
    fault? (mergeValue op present incoming) = malformed? incoming := by
  rcases object_or_not incoming with ⟨overlay, rfl⟩ | hobject
  · rw [mergeValue_object, fault?_map, malformed?]
    exact fault?_mergeFields _ overlay
  · rw [mergeValue_of_not_object hobject, malformed?_of_not_object hobject]
    rfl
termination_by (sizeOf incoming, 0)

theorem fault?_mergeKey (target : Fields Json) (key : String) (incoming : Json) :
    fault? (mergeKey target key incoming) = malformedAt? incoming := by
  rw [mergeKey]
  split
  · next fault hfault =>
      rw [malformedAt?, hfault]
      rfl
  · next named payload hread =>
      -- Putting the value back cannot fault, so the entry faults as its payload does.
      have hput : ∀ merged : Json, fault? (pure (Fields.put key merged
          (Fields.erase key target)) : Outcome (Fields Json)) = none := fun _ => rfl
      have hsize := Operator.sizeOf_unwrap_le hread
      rw [malformedAt?, hread, fault?_bind hput, Option.or_none]
      exact fault?_mergeValue _ _ payload
termination_by (sizeOf incoming, 1)
decreasing_by
  simp only [Prod.lex_def]
  omega

theorem fault?_mergeFields (base overlay : Fields Json) :
    fault? (mergeFields base overlay) = malformedIn? overlay := by
  match overlay with
  | [] =>
      rw [mergeFields, malformedIn?]
      rfl
  | (key, incoming) :: rest =>
      rw [mergeFields, malformedIn?, fault?_bind fun merged => fault?_mergeFields merged rest,
        fault?_mergeKey base key incoming]
termination_by (sizeOf overlay, 0)

end

theorem fault?_mergePair (base overlay : Json) :
    fault? (mergePair base overlay) = malformed? overlay := by
  rw [mergePair_eq_mergeValue, fault?_mergeValue]

theorem fault?_mergeOnto (present : Option Json) (fragment : Json) :
    fault? (mergeOnto present fragment) = malformed? fragment := by
  rw [mergeOnto_eq_mergeValue, fault?_map, fault?_mergeValue]

/-! ## All fragments -/

/-- Fragments fault with the first of them that is malformed. -/
theorem fault?_mergeFragments (fragments : List Json) :
    fault? (mergeFragments fragments) = fragments.findSome? malformed? := by
  suffices h : ∀ present : Option Json,
      fault? (fragments.foldlM mergeOnto present) = fragments.findSome? malformed? from h none
  induction fragments with
  | nil => exact fun _ => rfl
  | cons fragment rest ih =>
      intro present
      rw [List.foldlM_cons, fault?_bind ih, fault?_mergeOnto, List.findSome?_cons]
      cases malformed? fragment <;> rfl

theorem fault?_alone (fragment : Json) :
    fault? (mergeFragments [fragment]) = malformed? fragment := by
  rw [fault?_mergeFragments, List.findSome?_cons, List.findSome?_nil]
  cases malformed? fragment <;> rfl

/-- Where a merge faults is settled by the overlay: the fault is that of its first
malformed wrapper, on whatever it is laid. So fragments fault if one of them faults alone,
and with the fault of the first that does. -/
theorem faults_of_overlay :
    (∀ base overlay fault, mergePair base overlay = .error fault ↔
      mergeFragments [overlay] = .error fault)
    ∧ (∀ overlay fault, mergeFragments [overlay] = .error fault ↔
      malformed? overlay = some fault)
    ∧ (∀ fragments, (∃ fault, mergeFragments fragments = .error fault) ↔
      ∃ fragment ∈ fragments, ∃ fault, mergeFragments [fragment] = .error fault)
    ∧ ∀ fragments fault, mergeFragments fragments = .error fault ↔
      ∃ before fragment behind, fragments = before ++ fragment :: behind
        ∧ (∀ earlier ∈ before, ∃ value, mergeFragments [earlier] = .ok value)
        ∧ mergeFragments [fragment] = .error fault := by
  simp only [← fault?_eq_some, ← fault?_eq_none]
  refine ⟨fun base overlay fault => ?_, fun overlay fault => ?_, fun fragments => ?_,
    fun fragments fault => ?_⟩
  · rw [fault?_mergePair, fault?_alone]
  · rw [fault?_alone]
  · simp only [fault?_alone]
    rw [fault?_mergeFragments, ← Option.isSome_iff_exists, List.findSome?_isSome_iff]
    simp only [Option.isSome_iff_exists]
  · simp only [fault?_alone]
    rw [fault?_mergeFragments, List.findSome?_eq_some_iff]
    constructor
    · rintro ⟨before, fragment, behind, hsplit, hfault, hbefore⟩
      exact ⟨before, fragment, behind, hsplit, hbefore, hfault⟩
    · rintro ⟨before, fragment, behind, hsplit, hbefore, hfault⟩
      exact ⟨before, fragment, behind, hsplit, hfault, hbefore⟩

end Merging

end Strata
