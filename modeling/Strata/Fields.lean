/-!
# Text-keyed fields

A finite map from texts to values, kept as the list of its entries. The
operations below keep the list in strictly increasing key order, by code
point, and that order is the one in which fields are walked and printed.

Reading is by the first entry that holds the key, so the laws of `get?`
against `put` and `erase` need no assumption on the list at all; `Sorted` is
what makes the list the only representative of its map.
-/

namespace Strata

/-- Entries of a map from texts, least key first. -/
abbrev Fields (α : Type) := List (String × α)

namespace Fields

variable {α β : Type}

/-- The value held at `key`, if there is one. -/
def get? (key : String) : Fields α → Option α
  | [] => none
  | (name, value) :: rest => if key = name then some value else get? key rest

/-- Whether some entry holds `key`. -/
def has (key : String) (fields : Fields α) : Bool :=
  (get? key fields).isSome

/-- Hold `value` at `key`, in place of what was there. -/
def put (key : String) (value : α) : Fields α → Fields α
  | [] => [(key, value)]
  | (name, old) :: rest =>
    if key = name then (key, value) :: rest
    else if key < name then (key, value) :: (name, old) :: rest
    else (name, old) :: put key value rest

/-- Hold nothing at `key`. -/
def erase (key : String) (fields : Fields α) : Fields α :=
  fields.filter fun entry => entry.1 ≠ key

/-- The keys, in order. -/
def keys (fields : Fields α) : List String :=
  fields.map Prod.fst

/-- The same keys with every value passed through `f`. -/
def mapValues (f : α → β) (fields : Fields α) : Fields β :=
  fields.map fun entry => (entry.1, f entry.2)

/-- The map of a list of assignments; the last one to a key counts. -/
def ofList (entries : List (String × α)) : Fields α :=
  entries.foldl (fun fields entry => put entry.1 entry.2 fields) []

/-- Keys strictly increase along the list. -/
def Sorted (fields : Fields α) : Prop :=
  (keys fields).Pairwise (· < ·)

instance (fields : Fields α) : Decidable (Sorted fields) :=
  inferInstanceAs (Decidable ((keys fields).Pairwise (· < ·)))

@[simp] theorem get?_nil (key : String) : get? key ([] : Fields α) = none := rfl

@[simp] theorem get?_put_self (key : String) (value : α) (fields : Fields α) :
    get? key (put key value fields) = some value := by
  induction fields with
  | nil => simp [put, get?]
  | cons entry rest ih =>
    obtain ⟨name, old⟩ := entry
    by_cases same : key = name
    · simp [put, get?, same]
    · by_cases before : key < name
      · simp [put, get?, same, before]
      · simp [put, get?, same, before, ih]

theorem get?_put_of_ne {key other : String} (ne : other ≠ key) (value : α)
    (fields : Fields α) : get? other (put key value fields) = get? other fields := by
  induction fields with
  | nil => simp [put, get?, ne]
  | cons entry rest ih =>
    obtain ⟨name, old⟩ := entry
    by_cases same : key = name
    · subst same
      simp [put, get?, ne]
    · by_cases before : key < name
      · simp [put, get?, same, before, ne]
      · simp [put, get?, same, before, ih]

@[simp] theorem get?_erase_self (key : String) (fields : Fields α) :
    get? key (erase key fields) = none := by
  induction fields with
  | nil => rfl
  | cons entry rest ih =>
    obtain ⟨name, old⟩ := entry
    by_cases same : name = key
    · simpa [erase, same] using ih
    · have other : ¬ key = name := fun eq => same eq.symm
      simpa [erase, same, get?, other] using ih

theorem get?_erase_of_ne {key other : String} (ne : other ≠ key) (fields : Fields α) :
    get? other (erase key fields) = get? other fields := by
  induction fields with
  | nil => rfl
  | cons entry rest ih =>
    obtain ⟨name, value⟩ := entry
    by_cases same : name = key
    · have skipped : ¬ other = name := fun eq => ne (eq.trans same)
      simpa [erase, same, get?, skipped, ne] using ih
    · by_cases found : other = name
      · simp [erase, same, get?, found]
      · simpa [erase, same, get?, found] using ih

@[simp] theorem get?_mapValues (f : α → β) (key : String) (fields : Fields α) :
    get? key (mapValues f fields) = (get? key fields).map f := by
  induction fields with
  | nil => rfl
  | cons entry rest ih =>
    obtain ⟨name, value⟩ := entry
    by_cases same : key = name
    · simp [mapValues, get?, same]
    · simpa [mapValues, get?, same] using ih

theorem isSome_get?_iff {key : String} {fields : Fields α} :
    (get? key fields).isSome ↔ key ∈ keys fields := by
  induction fields with
  | nil => simp [keys]
  | cons entry rest ih =>
    obtain ⟨name, value⟩ := entry
    by_cases same : key = name
    · simp [get?, keys, same]
    · simpa [get?, keys, same] using ih

theorem get?_append (key : String) (front back : Fields α) :
    get? key (front ++ back) = (get? key front).or (get? key back) := by
  induction front with
  | nil => rfl
  | cons entry rest ih =>
    obtain ⟨name, value⟩ := entry
    by_cases same : key = name
    · simp [get?, same]
    · simpa [get?, same] using ih

/-- What is held is smaller than the fields that hold it. -/
theorem sizeOf_lt_of_get? [SizeOf α] {key : String} {value : α} {fields : Fields α}
    (held : get? key fields = some value) : sizeOf value < sizeOf fields := by
  induction fields with
  | nil => cases held
  | cons entry rest ih =>
    obtain ⟨name, first⟩ := entry
    rw [List.cons.sizeOf_spec, Prod.mk.sizeOf_spec]
    by_cases same : key = name
    · rw [get?, if_pos same] at held
      cases held
      omega
    · rw [get?, if_neg same] at held
      have := ih held
      omega

theorem mem_of_get? {key : String} {value : α} {fields : Fields α}
    (held : get? key fields = some value) : (key, value) ∈ fields := by
  induction fields with
  | nil => cases held
  | cons entry rest ih =>
    obtain ⟨name, first⟩ := entry
    rw [get?] at held
    split at held
    · next same =>
      subst same
      cases held
      exact List.mem_cons_self
    · exact List.mem_cons_of_mem _ (ih held)

theorem mem_of_mem_put {key : String} {value : α} {fields : Fields α} {entry : String × α}
    (member : entry ∈ put key value fields) : entry = (key, value) ∨ entry ∈ fields := by
  induction fields with
  | nil => exact .inl (List.mem_singleton.1 member)
  | cons first rest ih =>
    obtain ⟨name, old⟩ := first
    rw [put] at member
    split at member
    · exact (List.mem_cons.1 member).imp_right (List.mem_cons_of_mem _)
    · split at member
      · exact List.mem_cons.1 member
      · rcases List.mem_cons.1 member with rfl | behind
        · exact .inr List.mem_cons_self
        · exact (ih behind).imp_right (List.mem_cons_of_mem _)

theorem mem_keys_put {key other : String} {value : α} {fields : Fields α} :
    other ∈ keys (put key value fields) ↔ other = key ∨ other ∈ keys fields := by
  by_cases same : other = key
  · subst same
    simp [← isSome_get?_iff]
  · simp [← isSome_get?_iff, get?_put_of_ne same, same]

end Fields

end Strata
