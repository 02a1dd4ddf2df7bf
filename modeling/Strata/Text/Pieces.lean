/-!
# Pieces between separators

A text cut at every occurrence of a character. There is always one piece more
than there are separators, and pieces may be empty.
-/

namespace Strata.Text

/-- The runs of characters between separators; always at least one. -/
def runsBetween (separator : Char) : List Char → List (List Char)
  | [] => [[]]
  | c :: rest =>
    if c = separator then [] :: runsBetween separator rest
    else
      match runsBetween separator rest with
      | [] => [[c]]
      | run :: more => (c :: run) :: more

theorem runsBetween_ne_nil (separator : Char) (cs : List Char) :
    runsBetween separator cs ≠ [] := by
  cases cs with
  | nil => simp [runsBetween]
  | cons c rest =>
    by_cases cut : c = separator
    · simp [runsBetween, cut]
    · cases runs : runsBetween separator rest <;> simp [runsBetween, cut, runs]

/-- Nothing but the separators is lost. -/
theorem intercalate_runsBetween (separator : Char) (cs : List Char) :
    [separator].intercalate (runsBetween separator cs) = cs := by
  induction cs with
  | nil => rfl
  | cons c rest ih =>
    cases runs : runsBetween separator rest with
    | nil => exact absurd runs (runsBetween_ne_nil separator rest)
    | cons run more =>
      rw [runs] at ih
      by_cases cut : c = separator
      · simp [runsBetween, cut, runs, List.intercalate_cons_cons, ih]
      · cases more <;>
          simp_all [runsBetween, List.intercalate_cons_cons]

theorem separator_notMem_runsBetween {separator : Char} {cs run : List Char}
    (member : run ∈ runsBetween separator cs) : separator ∉ run := by
  induction cs generalizing run with
  | nil => simp_all [runsBetween]
  | cons c rest ih =>
    by_cases cut : c = separator
    · rcases List.mem_cons.1 (by simpa [runsBetween, cut] using member) with rfl | behind
      · simp
      · exact ih behind
    · cases runs : runsBetween separator rest with
      | nil => exact absurd runs (runsBetween_ne_nil separator rest)
      | cons first more =>
        rw [runs] at ih
        rcases List.mem_cons.1 (by simpa [runsBetween, cut, runs] using member) with rfl | behind
        · have apart : ¬ separator = c := fun eq => cut eq.symm
          simpa [apart] using ih List.mem_cons_self
        · exact ih (List.mem_cons_of_mem _ behind)

/-- The pieces of a text between separators. -/
def pieces (separator : Char) (text : String) : List String :=
  (runsBetween separator text.toList).map String.ofList

end Strata.Text
