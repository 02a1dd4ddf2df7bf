import Strata.Fields

/-!
# Sorted fields

Every operation on fields keeps their keys in strictly increasing order, so a
map that is built by them has its one representative. The argument is the same
each time: the keys of the outcome are among the keys that were there and the
key that was put, and the step at the head compares that key with the least one.
Two sorted lists with the same look-ups are the same list.
-/

namespace Strata.Fields

variable {α β : Type}

theorem sorted_cons {name : String} {value : α} {rest : Fields α} :
    Sorted ((name, value) :: rest) ↔ (∀ other ∈ keys rest, name < other) ∧ Sorted rest := by
  exact List.pairwise_cons

/-- Putting in place of an entry, in front of it, or further back keeps the order. -/
theorem sorted_put {key : String} {value : α} {fields : Fields α} (sorted : Sorted fields) :
    Sorted (put key value fields) := by
  induction fields with
  | nil => simp [put, Sorted, keys]
  | cons entry rest ih =>
    obtain ⟨name, old⟩ := entry
    obtain ⟨least, sortedRest⟩ := sorted_cons.1 sorted
    by_cases same : key = name
    · subst same
      simp only [put, if_true]
      exact sorted_cons.2 ⟨least, sortedRest⟩
    · by_cases before : key < name
      · simp only [put, same, before, if_false, if_true]
        refine sorted_cons.2 ⟨fun other member => ?_, sorted⟩
        rcases List.mem_cons.1 member with rfl | held
        · exact before
        · exact String.lt_trans before (least other held)
      · have behind : name < key :=
          Std.lt_of_le_of_ne (String.not_lt.1 before) fun eq => same eq.symm
        simp only [put, same, before, if_false]
        refine sorted_cons.2 ⟨fun other member => ?_, ih sortedRest⟩
        rcases mem_keys_put.1 member with rfl | held
        · exact behind
        · exact least other held

theorem sorted_erase {key : String} {fields : Fields α} (sorted : Sorted fields) :
    Sorted (erase key fields) := by
  have kept : (keys (erase key fields)).Sublist (keys fields) :=
    List.Sublist.map _ List.filter_sublist
  exact List.Pairwise.sublist kept sorted

theorem sorted_mapValues (f : α → β) {fields : Fields α} (sorted : Sorted fields) :
    Sorted (mapValues f fields) := by
  have same : keys (mapValues f fields) = keys fields := by
    simp [keys, mapValues]
  unfold Sorted at sorted ⊢
  rw [same]
  exact sorted

theorem sorted_ofList (entries : List (String × α)) : Sorted (ofList entries) := by
  suffices kept : ∀ fields : Fields α, Sorted fields →
      Sorted (entries.foldl (fun fields entry => put entry.1 entry.2 fields) fields) from
    kept [] (by simp [Sorted, keys])
  induction entries with
  | nil => exact fun _ sorted => sorted
  | cons entry rest ih => exact fun fields sorted => ih _ (sorted_put sorted)

/-- Assignments to distinct keys are all kept. -/
theorem get?_ofList {entries : List (String × α)} (distinct : (keys entries).Nodup)
    (key : String) : get? key (ofList entries) = get? key entries := by
  suffices kept : ∀ fields : Fields α,
      get? key (entries.foldl (fun fields entry => put entry.1 entry.2 fields) fields)
        = (get? key entries).or (get? key fields) by
    rw [ofList, kept, get?_nil, Option.or_none]
  induction entries with
  | nil => exact fun _ => rfl
  | cons entry rest ih =>
    intro fields
    obtain ⟨name, value⟩ := entry
    obtain ⟨fresh, distinctRest⟩ := List.nodup_cons.1 distinct
    rw [List.foldl_cons, ih distinctRest]
    by_cases same : key = name
    · subst same
      have later : get? key rest = none := by
        rw [← Option.not_isSome_iff_eq_none, isSome_get?_iff]
        exact fresh
      simp [get?, later]
    · simp [get?, same, get?_put_of_ne same]

/-- The least key is found at the head and nowhere behind it. -/
theorem get?_eq_none_of_lt {key : String} {fields : Fields α}
    (below : ∀ other ∈ keys fields, key < other) : get? key fields = none := by
  cases found : get? key fields with
  | none => rfl
  | some value =>
    have member : key ∈ keys fields := isSome_get?_iff.1 (by simp [found])
    exact absurd (below key member) (String.lt_irrefl key)

/-- Sorted fields are determined by what is held at each key. -/
theorem eq_of_get?_eq {left right : Fields α} (leftSorted : Sorted left)
    (rightSorted : Sorted right) (same : ∀ key, get? key left = get? key right) :
    left = right := by
  induction left generalizing right with
  | nil =>
    cases right with
    | nil => rfl
    | cons entry rest =>
      have found := same entry.1
      simp [get?] at found
  | cons entry rest ih =>
    obtain ⟨name, value⟩ := entry
    cases right with
    | nil =>
      have found := same name
      simp [get?] at found
    | cons other behind =>
      obtain ⟨otherName, otherValue⟩ := other
      obtain ⟨least, sortedRest⟩ := sorted_cons.1 leftSorted
      obtain ⟨otherLeast, sortedBehind⟩ := sorted_cons.1 rightSorted
      have sameName : name = otherName := by
        have here : name ∈ keys ((otherName, otherValue) :: behind) :=
          isSome_get?_iff.1 (by rw [← same]; simp [get?])
        have there : otherName ∈ keys ((name, value) :: rest) :=
          isSome_get?_iff.1 (by rw [same]; simp [get?])
        rcases List.mem_cons.1 here with eq | later
        · exact eq
        · rcases List.mem_cons.1 there with eq | sooner
          · exact eq.symm
          · exact absurd (String.lt_trans (otherLeast name later) (least otherName sooner))
              (String.lt_irrefl otherName)
      subst sameName
      have sameValue : value = otherValue := by
        simpa [get?] using same name
      have sameRest : rest = behind := by
        refine ih sortedRest sortedBehind fun key => ?_
        by_cases head : key = name
        · rw [head, get?_eq_none_of_lt least, get?_eq_none_of_lt otherLeast]
        · simpa [get?, head] using same key
      rw [sameValue, sameRest]

end Strata.Fields
