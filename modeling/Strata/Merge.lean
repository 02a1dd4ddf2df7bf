import Strata.Operator

/-!
# Merging fragments

Fragments are merged from the first to the last, and later ones take
precedence. Two objects are merged key by key, in key order: the value at the
key is taken out, meets the incoming one by the operator that this names or that
their shapes suggest, and the outcome is put back. What stands in place of
another value is resolved first: the wrappers inside an object are applied to
nothing, so that none is left. Arrays are kept as they are: nothing inside them
is a wrapper.

A wrapper whose operator is no text or no operator is a fault, and ends the
merge where it is met.
-/

namespace Strata

mutual

/-- A value that stands in place of what was there, its wrappers resolved. -/
def resolveReplacement : Json → Outcome Json
  | .object fields => do
    let merged ← mergeFields [] fields
    pure (.object merged)
  | value => .ok value
termination_by value => (sizeOf value, 0)

/-- What an incoming value makes of the present one by an operator. -/
def mergeValue (op : Operator) (present : Option Json) (incoming : Json) : Outcome Json :=
  match op, present, incoming with
  | .merge, some (.object base), .object overlay => do
    let merged ← mergeFields base overlay
    pure (.object merged)
  | .add, some (.array base), .array overlay => .ok (.array (base ++ overlay))
  -- replace, and an operator on shapes that it cannot combine
  | _, _, value => resolveReplacement value
termination_by (sizeOf incoming, 1)

/-- The fields after an incoming value has met what is held at its key. -/
def mergeKey (target : Fields Json) (key : String) (incoming : Json) : Outcome (Fields Json) :=
  match _unwrapped : Operator.unwrap incoming with
  | .error fault => .error fault
  | .ok (named, value) => do
    let present := Fields.get? key target
    let merged ← mergeValue (named.getD (Operator.byShape present value)) present value
    pure (Fields.put key merged (Fields.erase key target))
termination_by (sizeOf incoming, 2)
decreasing_by
  have := Operator.sizeOf_unwrap_le _unwrapped
  simp only [Prod.lex_def]
  omega

/-- The fields after all entries of an overlay have been merged, in their order. -/
def mergeFields (base : Fields Json) : List (String × Json) → Outcome (Fields Json)
  | [] => .ok base
  | (key, incoming) :: rest => do
    let merged ← mergeKey base key incoming
    mergeFields merged rest
termination_by overlay => (sizeOf overlay, 0)

end

/-- The outcome of laying `overlay` on `base`. Two objects are merged key by key;
any other pair gives the overlay, its wrappers resolved. -/
def mergePair : Json → Json → Outcome Json
  | .object base, .object overlay => do
    let merged ← mergeFields base overlay
    pure (.object merged)
  | _, overlay => resolveReplacement overlay

/-- The outcome of laying `fragment` on what is there, if anything is. -/
def mergeOnto (present : Option Json) (fragment : Json) : Outcome (Option Json) :=
  match present with
  | none => some <$> resolveReplacement fragment
  | some base => some <$> mergePair base fragment

/-- The merge of all fragments in order, or nothing if there are none. -/
def mergeFragments (fragments : List Json) : Outcome (Option Json) :=
  fragments.foldlM mergeOnto none

end Strata
