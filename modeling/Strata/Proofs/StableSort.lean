/-!
# Stable sorting, as an order on what comes out

A stable sort leaves entries that compare equal in the order in which it found
them. For a list that was already in some order `R`, that is a statement about
pairs: what comes earlier in the outcome compares at most equal, and where the
two compare equal it stands in `R` to the later one. So the outcome is ordered by
the comparison first and by `R` second, and if that order admits no ties, the
outcome is the only arrangement of the list that is ordered so.

Sorting and leaving out commute: what is left out was in nobody's way.
-/

namespace Strata

variable {α : Type} {le : α → α → Bool} {R : α → α → Prop}

/-- The order of a stable sort by `le` of a list that was in the order `R`. -/
def StablyBefore (le : α → α → Bool) (R : α → α → Prop) (x y : α) : Prop :=
  le x y = true ∧ (le y x = true → R x y)

/-- A stable sort orders by `le` first and by the former order second. -/
theorem pairwise_mergeSort_stablyBefore
    (trans : ∀ x y z, le x y = true → le y z = true → le x z = true)
    (total : ∀ x y, (le x y || le y x) = true) {items : List α} (h : items.Pairwise R) :
    (items.mergeSort le).Pairwise (StablyBefore le R) := by
  induction items with
  | nil => rw [List.mergeSort_nil]; exact .nil
  | cons first rest ih =>
      obtain ⟨hfirst, hrest⟩ := List.pairwise_cons.mp h
      -- The sort of the whole is the sort of the rest with `first` in between,
      -- behind only what compares strictly below it.
      obtain ⟨front, back, hall, hsplit, hbelow⟩ :=
        List.mergeSort_cons trans total first rest
      have hsorted := List.pairwise_mergeSort trans total (first :: rest)
      have hinner := ih hrest
      have hmem : ∀ x ∈ back, x ∈ rest := by
        intro x hx
        have hx' : x ∈ rest.mergeSort le := by
          rw [hsplit]
          exact List.mem_append_right front hx
        exact List.mem_mergeSort.mp hx'
      rw [hsplit, List.pairwise_append] at hinner
      rw [hall, List.pairwise_append, List.pairwise_cons] at hsorted ⊢
      obtain ⟨hfront, hback, hacross⟩ := hinner
      refine ⟨hfront, ⟨fun y hy => ⟨hsorted.2.1.1 y hy, fun _ => hfirst y (hmem y hy)⟩,
        hback⟩, ?_⟩
      intro x hx y hy
      rcases List.mem_cons.mp hy with rfl | hy
      · have hnot : le y x = false := by simpa using hbelow x hx
        exact ⟨hsorted.2.2 x hx y List.mem_cons_self, fun hle => by
          rw [hnot] at hle
          cases hle⟩
      · exact hacross x hx y hy

/-- A list is cut in one way only into what passes a test and then what does not. -/
theorem append_inj_of_test (test : α → Bool) {front back front' back' : List α}
    (h : front ++ back = front' ++ back') (hfront : ∀ x ∈ front, test x = true)
    (hback : ∀ x ∈ back, ¬ test x = true) (hfront' : ∀ x ∈ front', test x = true)
    (hback' : ∀ x ∈ back', ¬ test x = true) : front = front' ∧ back = back' := by
  have hpassed := congrArg (List.filter test) h
  rw [List.filter_append, List.filter_append, List.filter_eq_self.mpr hfront,
    List.filter_eq_self.mpr hfront', List.filter_eq_nil_iff.mpr hback,
    List.filter_eq_nil_iff.mpr hback', List.append_nil, List.append_nil] at hpassed
  subst hpassed
  exact ⟨rfl, List.append_cancel_left h⟩

/-- Leaving entries out of a sorted list is sorting what is left. -/
theorem filter_mergeSort (trans : ∀ x y z, le x y = true → le y z = true → le x z = true)
    (total : ∀ x y, (le x y || le y x) = true) (keep : α → Bool) (items : List α) :
    (items.mergeSort le).filter keep = (items.filter keep).mergeSort le := by
  induction items with
  | nil => rw [List.mergeSort_nil, List.filter_nil, List.mergeSort_nil]
  | cons first rest ih =>
      obtain ⟨front, back, hall, hsplit, hbelow⟩ :=
        List.mergeSort_cons trans total first rest
      rw [hsplit, List.filter_append] at ih
      rw [hall, List.filter_append]
      by_cases hkeep : keep first = true
      · obtain ⟨front', back', hall', hsplit', hbelow'⟩ :=
          List.mergeSort_cons trans total first (rest.filter keep)
        rw [List.filter_cons_of_pos hkeep, List.filter_cons_of_pos hkeep, hall']
        -- In both sorts `first` stands behind what compares strictly below it, and in
        -- front of the rest; so both cut the sorted rest at the same place.
        have hsorted := List.pairwise_mergeSort trans total (first :: rest)
        have hsorted' := List.pairwise_mergeSort trans total (first :: rest.filter keep)
        rw [hall, List.pairwise_append, List.pairwise_cons] at hsorted
        rw [hall', List.pairwise_append, List.pairwise_cons] at hsorted'
        obtain ⟨hfront, hback⟩ := append_inj_of_test (fun x => !le first x)
          (ih.trans hsplit')
          (fun x hx => hbelow x (List.mem_filter.mp hx).1)
          (fun x hx => by simp [hsorted.2.1.1 x (List.mem_filter.mp hx).1])
          (fun x hx => hbelow' x hx)
          (fun x hx => by simp [hsorted'.2.1.1 x hx])
        rw [hfront, hback]
      · rw [List.filter_cons_of_neg hkeep, List.filter_cons_of_neg hkeep, ← ih]

end Strata
