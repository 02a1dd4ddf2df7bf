import Strata.Fault

/-!
# Taking outcomes apart

A computation that may fault succeeds exactly if all of its steps do. These are
the equations that say so, for one step after another and for the same step on
every item of a list.
-/

namespace Strata.Outcome

variable {α β : Type}

theorem bind_eq_ok {outcome : Outcome α} {next : α → Outcome β} {result : β} :
    outcome >>= next = .ok result ↔ ∃ value, outcome = .ok value ∧ next value = .ok result := by
  constructor
  · intro h
    cases outcome with
    | ok value => exact ⟨value, rfl, h⟩
    | error fault => cases h
  · rintro ⟨value, rfl, h⟩
    exact h

theorem map_eq_ok {f : α → β} {outcome : Outcome α} {result : β} :
    f <$> outcome = .ok result ↔ ∃ value, outcome = .ok value ∧ f value = result := by
  cases outcome with
  | error fault =>
      constructor
      · intro h
        cases h
      · rintro ⟨value, h, -⟩
        cases h
  | ok value =>
      constructor
      · intro h
        cases h
        exact ⟨value, rfl, rfl⟩
      · rintro ⟨_, h, rfl⟩
        cases h
        rfl

/-- Lifting an outcome into outcomes does nothing. -/
theorem lift_self (outcome : Outcome α) : (lift outcome : Outcome α) = outcome := by
  cases outcome <;> rfl

theorem mapM_cons_eq_ok {step : α → Outcome β} {item : α} {rest : List α} {results : List β} :
    (item :: rest).mapM step = .ok results ↔
      ∃ result others, step item = .ok result ∧ rest.mapM step = .ok others
        ∧ results = result :: others := by
  rw [List.mapM_cons, bind_eq_ok]
  constructor
  · rintro ⟨result, hstep, h⟩
    obtain ⟨others, hothers, hpure⟩ := bind_eq_ok.mp h
    cases hpure
    exact ⟨result, others, hstep, hothers, rfl⟩
  · rintro ⟨result, others, hstep, hothers, rfl⟩
    exact ⟨result, hstep, bind_eq_ok.mpr ⟨others, hothers, rfl⟩⟩

/-- A step that succeeds on every item gives its results on them and no others. -/
theorem of_mapM_eq_ok {step : α → Outcome β} {items : List α} {results : List β}
    (h : items.mapM step = .ok results) :
    (∀ item ∈ items, ∃ result, step item = .ok result)
      ∧ ∀ result ∈ results, ∃ item ∈ items, step item = .ok result := by
  induction items generalizing results with
  | nil =>
      rw [List.mapM_nil] at h
      cases h
      exact ⟨List.forall_mem_nil _, List.forall_mem_nil _⟩
  | cons item rest ih =>
      obtain ⟨result, others, hstep, hothers, rfl⟩ := mapM_cons_eq_ok.mp h
      obtain ⟨hitems, hresults⟩ := ih hothers
      refine ⟨List.forall_mem_cons.mpr ⟨⟨result, hstep⟩, hitems⟩,
        List.forall_mem_cons.mpr ⟨⟨item, List.mem_cons_self, hstep⟩, ?_⟩⟩
      intro other hother
      obtain ⟨found, hmem, hfound⟩ := hresults other hother
      exact ⟨found, List.mem_cons_of_mem _ hmem, hfound⟩

theorem mem_of_mapM_eq_ok {step : α → Outcome β} {items : List α} {results : List β}
    (h : items.mapM step = .ok results) {item : α} (hmem : item ∈ items) {result : β}
    (hstep : step item = .ok result) : result ∈ results := by
  induction items generalizing results with
  | nil => cases hmem
  | cons first rest ih =>
      obtain ⟨other, others, hother, hothers, rfl⟩ := mapM_cons_eq_ok.mp h
      rcases List.mem_cons.mp hmem with rfl | hrest
      · rw [hstep] at hother
        cases hother
        exact List.mem_cons_self
      · exact List.mem_cons_of_mem _ (ih hothers hrest)

theorem mem_iff_of_mapM_eq_ok {step : α → Outcome β} {items : List α} {results : List β}
    (h : items.mapM step = .ok results) {result : β} :
    result ∈ results ↔ ∃ item ∈ items, step item = .ok result := by
  constructor
  · exact (of_mapM_eq_ok h).2 result
  · intro hstep
    obtain ⟨item, hmem, hstep⟩ := hstep
    exact mem_of_mapM_eq_ok h hmem hstep

/-- What holds at the start of a fold and is kept by each of its steps holds at its end. -/
theorem of_foldlM_eq_ok {motive : β → Prop} {step : β → α → Outcome β} {items : List α}
    (hstep : ∀ item ∈ items, ∀ value next, motive value → step value item = .ok next →
      motive next) {start result : β} (hstart : motive start)
    (h : items.foldlM step start = .ok result) : motive result := by
  induction items generalizing start with
  | nil =>
      rw [List.foldlM_nil] at h
      cases h
      exact hstart
  | cons item rest ih =>
      obtain ⟨hitem, hrest⟩ := List.forall_mem_cons.mp hstep
      rw [List.foldlM_cons] at h
      obtain ⟨next, hnext, h⟩ := bind_eq_ok.mp h
      exact ih hrest (hitem start next hstart hnext) h

/-- A fold whose step refuses some items, and on the others goes on from a state that it
computes, succeeds if it meets none of the former. -/
theorem foldlM_eq_ok {step : β → α → Outcome β} {good : α → Prop} {next : β → α → β}
    (hstep : ∀ value item result, step value item = .ok result ↔
      good item ∧ result = next value item)
    {items : List α} {start result : β} :
    items.foldlM step start = .ok result ↔
      (∀ item ∈ items, good item) ∧ result = items.foldl next start := by
  induction items generalizing start with
  | nil =>
      rw [List.foldlM_nil]
      constructor
      · intro h
        cases h
        exact ⟨List.forall_mem_nil _, rfl⟩
      · rintro ⟨-, rfl⟩
        rfl
  | cons item rest ih =>
      rw [List.foldlM_cons, bind_eq_ok, List.forall_mem_cons, List.foldl_cons]
      constructor
      · rintro ⟨value, hvalue, h⟩
        obtain ⟨hitem, rfl⟩ := (hstep _ _ _).mp hvalue
        obtain ⟨hrest, hresult⟩ := ih.mp h
        exact ⟨⟨hitem, hrest⟩, hresult⟩
      · rintro ⟨⟨hitem, hrest⟩, hresult⟩
        exact ⟨_, (hstep _ _ _).mpr ⟨hitem, rfl⟩, ih.mpr ⟨hrest, hresult⟩⟩

theorem ok_or_error (outcome : Outcome α) :
    (∃ value, outcome = .ok value) ∨ ∃ fault, outcome = .error fault := by
  cases outcome with
  | ok value => exact .inl ⟨value, rfl⟩
  | error fault => exact .inr ⟨fault, rfl⟩

theorem not_ok_of_error {outcome : Outcome α} {fault : Fault} (h : outcome = .error fault) :
    ¬ ∃ value, outcome = .ok value := by
  rintro ⟨value, hvalue⟩
  rw [h] at hvalue
  cases hvalue

/-- A step on every item faults exactly if it faults on one of them. -/
theorem mapM_isError_iff {step : α → Outcome β} {items : List α} :
    (∃ fault, items.mapM step = .error fault) ↔
      ∃ item ∈ items, ∃ fault, step item = .error fault := by
  constructor
  · rintro ⟨fault, h⟩
    induction items generalizing fault with
    | nil => cases h
    | cons item rest ih =>
        rw [List.mapM_cons] at h
        rcases ok_or_error (step item) with ⟨result, hstep⟩ | hstep
        · rcases ok_or_error (rest.mapM step) with ⟨others, hrest⟩ | ⟨fault, hrest⟩
          · rw [hstep, hrest] at h
            cases h
          · obtain ⟨found, hmem, hfound⟩ := ih fault hrest
            exact ⟨found, List.mem_cons_of_mem _ hmem, hfound⟩
        · exact ⟨item, List.mem_cons_self, hstep⟩
  · rintro ⟨item, hmem, fault, hstep⟩
    rcases ok_or_error (items.mapM step) with ⟨results, hall⟩ | hfault
    · exact absurd ((of_mapM_eq_ok hall).1 item hmem) (not_ok_of_error hstep)
    · exact hfault

end Strata.Outcome
