import Strata.Fields.Sorted
import Strata.Operator

/-!
# One value over another

`combine` says what an incoming value makes of the value at its key, and walks along
no entries to say so: an object laid on an object is given by its look-ups, each of
which asks for the values at that key and for nothing else.

Two things are asked of values. An overlay mentions each key once, or its second
mention would be laid on its first; this is `Distinct`, and asks for no order. A base
lists its keys in order, or it would not be the only list with its look-ups; this is
`Tidy`, and whatever is combined has it. Both stop at arrays, as merging does: nothing
inside an array is looked up.
-/

namespace Strata

namespace Fields

variable {α : Type}

theorem get?_cons (name key : String) (value : α) (rest : Fields α) :
    get? key ((name, value) :: rest) = if key = name then some value else get? key rest := rfl

theorem get?_eq_none_iff {key : String} {fields : Fields α} :
    get? key fields = none ↔ key ∉ keys fields := by
  rw [← isSome_get?_iff, Option.not_isSome_iff_eq_none]

theorem get?_of_mem {fields : Fields α} (hkeys : (keys fields).Nodup) {entry : String × α}
    (hmem : entry ∈ fields) : get? entry.1 fields = some entry.2 := by
  induction fields with
  | nil => cases hmem
  | cons first rest ih =>
      obtain ⟨hnew, hrest⟩ := List.nodup_cons.mp hkeys
      rw [get?_cons]
      rcases List.mem_cons.mp hmem with rfl | hlater
      · rw [if_pos rfl]
      · have hother : entry.1 ≠ first.1 := fun heq =>
          hnew (heq ▸ List.mem_map_of_mem hlater)
        rw [if_neg hother]
        exact ih hrest hlater

/-- The fields that hold what `f` gives at the listed keys. -/
def tabulate (f : String → Option α) : List String → Fields α
  | [] => []
  | key :: rest =>
    match f key with
    | none => tabulate f rest
    | some value => put key value (tabulate f rest)

variable {f : String → Option α}

theorem sorted_tabulate (keys : List String) : Sorted (tabulate f keys) := by
  induction keys with
  | nil => exact .nil
  | cons key rest ih =>
      rw [tabulate]
      split
      · exact ih
      · exact sorted_put ih

theorem get?_tabulate (keys : List String) (key : String) :
    get? key (tabulate f keys) = if key ∈ keys then f key else none := by
  induction keys with
  | nil => rfl
  | cons first rest ih =>
      rw [tabulate]
      by_cases hkey : key = first
      · subst hkey
        rw [if_pos List.mem_cons_self]
        split
        · next hnone => rw [ih, hnone, ite_self]
        · next value hsome => rw [get?_put_self, hsome]
      · have hput : ∀ value, get? key (put first value (tabulate f rest))
            = get? key (tabulate f rest) := fun value => get?_put_of_ne hkey value _
        have hmem : key ∈ first :: rest ↔ key ∈ rest := by simp [hkey]
        split <;> simp only [hput, ih, hmem]

end Fields

namespace Merging

/-! ## Combining -/

theorem sizeOf_lt_of_held {fields : Fields Json} {key : String} {value outer : Json}
    (hheld : Fields.get? key fields = some value)
    (hsize : sizeOf (Json.object fields) ≤ sizeOf outer) : sizeOf value < sizeOf outer := by
  have hless := Fields.sizeOf_lt_of_get? hheld
  rw [Json.object.sizeOf_spec] at hsize
  omega

/-- The operator and the payload of a wrapper, if its operator is one. -/
def wrapped? : Json → Option (Operator × Json)
  | .object fields =>
    match Fields.get? Operator.key fields with
    | some (.text name) =>
      ([.replace, .merge, .add].find? fun op : Operator => op.name = name).map fun op =>
        (op, Operator.payload fields)
    | _ => none
  | _ => none

/-- The operator of an incoming value and the value that it brings. -/
def reading (present : Option Json) (incoming : Json) : Operator × Json :=
  (wrapped? incoming).getD (Operator.byShape present incoming, incoming)

theorem sizeOf_reading_le (present : Option Json) (incoming : Json) :
    sizeOf (reading present incoming).2 ≤ sizeOf incoming := by
  rw [reading]
  cases hwrapped : wrapped? incoming with
  | none => exact Nat.le_refl _
  | some found =>
      rw [Option.getD_some]
      unfold wrapped? at hwrapped
      split at hwrapped
      · split at hwrapped
        · next fields _ _ _ =>
            obtain ⟨op, -, rfl⟩ := Option.map_eq_some_iff.mp hwrapped
            have hpayload := Operator.sizeOf_payload_le fields
            rw [Json.object.sizeOf_spec]
            exact Nat.le_trans hpayload (Nat.le_add_left _ _)
        · cases hwrapped
      · cases hwrapped

/-- The object that an incoming one is laid on: what is there, if the two are to be
merged, and otherwise nothing. -/
def groundOf : Operator → Option Json → Fields Json
  | .merge, some (.object base) => base
  | _, _ => []

/-- What a payload that is no object makes of the value at its key. -/
def settled (op : Operator) (present : Option Json) (payload : Json) : Json :=
  match op, present, payload with
  | .add, some (.array base), .array more => .array (base ++ more)
  | _, _, value => value

/-- What an incoming value makes of the value at its key. -/
def combine (present : Option Json) (incoming : Json) : Json :=
  match _read : reading present incoming with
  | (op, .object overlay) =>
    .object (Fields.tabulate
      (fun key =>
        match _held : Fields.get? key overlay with
        | none => Fields.get? key (groundOf op present)
        | some value => some (combine (Fields.get? key (groundOf op present)) value))
      (Fields.keys (groundOf op present) ++ Fields.keys overlay))
  | (op, payload) => settled op present payload
termination_by sizeOf incoming
decreasing_by
  have hread := sizeOf_reading_le present incoming
  rw [_read] at hread
  exact sizeOf_lt_of_held _held hread

/-- What is at a key when one object is laid on another. -/
def laidAt (base overlay : Fields Json) (key : String) : Option Json :=
  match Fields.get? key overlay with
  | none => Fields.get? key base
  | some value => some (combine (Fields.get? key base) value)

/-- One object laid on another, key by key. -/
def laid (base overlay : Fields Json) : Fields Json :=
  Fields.tabulate (laidAt base overlay) (Fields.keys base ++ Fields.keys overlay)

theorem combine_of_object {present : Option Json} {incoming : Json} {op : Operator}
    {overlay : Fields Json} (h : reading present incoming = (op, .object overlay)) :
    combine present incoming = .object (laid (groundOf op present) overlay) := by
  rw [combine]
  split
  · next _ _ hread =>
      cases hread.symm.trans h
      have hlaid : (fun key =>
          match _held : Fields.get? key overlay with
          | none => Fields.get? key (groundOf op present)
          | some value => some (combine (Fields.get? key (groundOf op present)) value))
          = laidAt (groundOf op present) overlay := by
        funext key
        rw [laidAt]
        split <;> next hheld => rw [hheld]
      rw [laid, hlaid]
  · next _ _ hobject hread =>
      cases hread.symm.trans h
      exact absurd rfl (hobject overlay)

theorem combine_of_not_object {present : Option Json} {incoming payload : Json}
    {op : Operator} (h : reading present incoming = (op, payload))
    (hobject : ∀ fields, payload ≠ .object fields) :
    combine present incoming = settled op present payload := by
  rw [combine]
  split
  · next _ overlay hread =>
      cases hread.symm.trans h
      exact absurd rfl (hobject overlay)
  · next _ _ _ hread =>
      cases hread.symm.trans h
      rfl

/-! ## One object over another -/

section Laid

variable {base overlay : Fields Json} {key : String}

theorem sorted_laid : Fields.Sorted (laid base overlay) :=
  Fields.sorted_tabulate _

theorem get?_laid : Fields.get? key (laid base overlay) = laidAt base overlay key := by
  rw [laid, Fields.get?_tabulate]
  split
  · rfl
  · next hkey =>
      rw [List.mem_append, not_or, ← Fields.get?_eq_none_iff, ← Fields.get?_eq_none_iff]
        at hkey
      rw [laidAt, hkey.2, hkey.1]

end Laid

/-! ## Distinct and tidy values -/

/-- Every object of the value, outside arrays, has fields of a kind. -/
inductive Throughout (p : Fields Json → Prop) : Json → Prop
  | object {fields : Fields Json} (hhere : p fields)
      (hvalues : ∀ key value, Fields.get? key fields = some value → Throughout p value) :
      Throughout p (.object fields)
  | other {value : Json} (h : ∀ fields, value ≠ .object fields) : Throughout p value

/-- No object of the value mentions a key twice. -/
abbrev Distinct : Json → Prop :=
  Throughout fun fields => (Fields.keys fields).Nodup

/-- Every object of the value lists its keys in order. -/
abbrev Tidy : Json → Prop :=
  Throughout Fields.Sorted

section Throughout

variable {p : Fields Json → Prop} {fields : Fields Json}

theorem Throughout.here (h : Throughout p (.object fields)) : p fields := by
  cases h with
  | object hhere _ => exact hhere
  | other h => exact absurd rfl (h fields)

theorem Throughout.value (h : Throughout p (.object fields)) {key : String} {value : Json}
    (hheld : Fields.get? key fields = some value) : Throughout p value := by
  cases h with
  | object _ hvalues => exact hvalues key value hheld
  | other h => exact absurd rfl (h fields)

theorem Throughout.of_entries (hhere : p fields)
    (h : ∀ entry ∈ fields, Throughout p entry.2) : Throughout p (.object fields) :=
  .object hhere fun _ _ hheld => h _ (Fields.mem_of_get? hheld)

theorem Throughout.mono {q : Fields Json → Prop} {value : Json} (h : Throughout p value)
    (himp : ∀ fields, p fields → q fields) : Throughout q value := by
  induction h with
  | object hhere _ ih => exact .object (himp _ hhere) ih
  | other h => exact .other h

theorem Throughout.payload (h : Throughout p (.object fields)) :
    Throughout p (Operator.payload fields) := by
  rw [Operator.payload]
  cases hheld : Fields.get? Operator.payloadKey fields with
  | none => exact .other fun fields hnull => by cases hnull
  | some value => exact h.value hheld

end Throughout

theorem object_or_not (value : Json) :
    (∃ fields, value = .object fields) ∨ ∀ fields, value ≠ .object fields := by
  cases value with
  | object fields => exact .inl ⟨fields, rfl⟩
  | null | boolean _ | integer _ | real _ | text _ | array _ =>
      exact .inr fun fields h => by cases h

theorem wellFormed_of_get? {fields : Fields Json} (h : Json.FieldsWellFormed fields)
    {key : String} {value : Json} (hheld : Fields.get? key fields = some value) :
    value.WellFormed := by
  induction fields with
  | nil => cases hheld
  | cons entry rest ih =>
      obtain ⟨name, first⟩ := entry
      rw [Json.FieldsWellFormed] at h
      rw [Fields.get?_cons] at hheld
      split at hheld
      · cases hheld
        exact h.1
      · exact ih h.2 hheld

/-- Values as they are read from documents list their keys in order. -/
theorem tidy_of_wellFormed {value : Json} (h : value.WellFormed) : Tidy value := by
  rcases object_or_not value with ⟨fields, rfl⟩ | hobject
  · rw [Json.WellFormed] at h
    refine .object h.1 fun key inner hheld => ?_
    have hsmaller := sizeOf_lt_of_held hheld (Nat.le_refl _)
    exact tidy_of_wellFormed (wellFormed_of_get? h.2 hheld)
  · exact .other hobject
termination_by sizeOf value

/-- Values as they are read from documents mention no key twice. -/
theorem distinct_of_wellFormed {value : Json} (h : value.WellFormed) : Distinct value := by
  refine (tidy_of_wellFormed h).mono fun fields hsorted => hsorted.imp fun hlt heq => ?_
  rw [heq] at hlt
  exact String.lt_irrefl _ hlt

theorem tidy_of_some {base : Json} (h : Tidy base) :
    ∀ value, some base = some value → Tidy value := by
  intro value hvalue
  cases hvalue
  exact h

theorem Tidy.ground {present : Option Json} (h : ∀ value, present = some value → Tidy value)
    (op : Operator) : Tidy (.object (groundOf op present)) := by
  unfold groundOf
  split
  · next base => exact h _ rfl
  · exact .object .nil fun key value hheld => by cases hheld

theorem settled_ne_object {op : Operator} {present : Option Json} {payload : Json}
    (h : ∀ fields, payload ≠ .object fields) (fields : Fields Json) :
    settled op present payload ≠ .object fields := by
  unfold settled
  split
  · exact fun harray => by cases harray
  · exact h fields

theorem tidy_laid {base overlay : Fields Json} (h : Tidy (.object base))
    (hcombined : ∀ key value, Fields.get? key overlay = some value →
      Tidy (combine (Fields.get? key base) value)) : Tidy (.object (laid base overlay)) := by
  refine .object sorted_laid fun key value hheld => ?_
  rw [get?_laid, laidAt] at hheld
  split at hheld
  · exact h.value hheld
  · next inner hinner =>
      cases hheld
      exact hcombined key inner hinner

/-- What is laid on a tidy value is tidy, whatever order it is in itself. -/
theorem tidy_combine (incoming : Json) {present : Option Json}
    (h : ∀ value, present = some value → Tidy value) : Tidy (combine present incoming) := by
  have hsize := sizeOf_reading_le present incoming
  rcases hread : reading present incoming with ⟨op, payload⟩
  rw [hread] at hsize
  rcases object_or_not payload with ⟨overlay, rfl⟩ | hobject
  · rw [combine_of_object hread]
    have hground := Tidy.ground h op
    refine tidy_laid hground fun key inner hinner => ?_
    have hsmaller := sizeOf_lt_of_held hinner hsize
    exact tidy_combine inner fun below hbelow => hground.value hbelow
  · rw [combine_of_not_object hread hobject]
    exact .other (settled_ne_object hobject)
termination_by sizeOf incoming

end Merging

end Strata
