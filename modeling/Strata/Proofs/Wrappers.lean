import Strata.Proofs.Merging

/-!
# Wrappers in what a merge comes to

A wrapper names an operator and holds what the operator brings. The merge takes the
wrapper off at every entry that it comes to, under whatever operator and whether the
value there is laid on something or put down alone. What it takes out it does not look at
again before going on to the fields within: if a wrapper holds a wrapper, the field that
names the operator of the inner one is merged as any other field and is there in the end.

That is the only way in which it gets there. `WrappedOnce` excludes it, and a merge of
fragments that are wrapped once leaves no wrapper. The condition cannot be weakened: a
fragment that is merged alone keeps all of its keys, so whatever it wraps twice shows.
-/

namespace Strata.Merging

/-- No object of the value, outside arrays, has a field that names an operator. -/
abbrev Unwrapped : Json → Prop :=
  Throughout fun fields => Operator.key ∉ Fields.keys fields

/-- What is wrapped in the value, at any depth outside arrays, is no wrapper itself. -/
inductive WrappedOnce : Json → Prop
  | other {value : Json} (h : ∀ fields, value ≠ .object fields) : WrappedOnce value
  | nil : WrappedOnce (.object [])
  | cons {key : String} {incoming payload : Json} {named : Option Operator}
      {rest : Fields Json} (hread : Operator.unwrap incoming = .ok (named, payload))
      (htop : payload.field? Operator.key = none) (hpayload : WrappedOnce payload)
      (hrest : WrappedOnce (.object rest)) : WrappedOnce (.object ((key, incoming) :: rest))

theorem field?_of_not_object {value : Json} (h : ∀ fields, value ≠ .object fields)
    (key : String) : value.field? key = none := by
  rw [Json.field?]
  exact h

theorem WrappedOnce.of_entries {fields : Fields Json}
    (h : ∀ entry ∈ fields, ∃ named payload, Operator.unwrap entry.2 = .ok (named, payload)
      ∧ payload.field? Operator.key = none ∧ WrappedOnce payload) :
    WrappedOnce (.object fields) := by
  induction fields with
  | nil => exact .nil
  | cons entry rest ih =>
      obtain ⟨⟨named, payload, hread, htop, hpayload⟩, hrest⟩ := List.forall_mem_cons.mp h
      exact .cons hread htop hpayload (ih hrest)

/-! ## What is wrapped once leaves no wrapper -/

theorem unwrapped_nil : Unwrapped (.object []) :=
  .object List.not_mem_nil fun key value hheld => by cases hheld

theorem Unwrapped.replaceAt {fields : Fields Json} {key : String} {value : Json}
    (h : Unwrapped (.object fields)) (hkey : key ≠ Operator.key) (hvalue : Unwrapped value) :
    Unwrapped (.object (Fields.put key value (Fields.erase key fields))) := by
  refine .object ?_ fun other held hheld => ?_
  · rw [← Fields.get?_eq_none_iff, Fields.get?_put_of_ne hkey.symm,
      Fields.get?_erase_of_ne hkey.symm, Fields.get?_eq_none_iff]
    exact h.here
  · by_cases hother : other = key
    · subst hother
      rw [Fields.get?_put_self] at hheld
      cases hheld
      exact hvalue
    · rw [Fields.get?_put_of_ne hother, Fields.get?_erase_of_ne hother] at hheld
      exact h.value hheld

theorem Unwrapped.ground {present : Option Json}
    (h : ∀ value, present = some value → Unwrapped value) (op : Operator) :
    Unwrapped (.object (groundOf op present)) := by
  unfold groundOf
  split
  · next base => exact h _ rfl
  · exact unwrapped_nil

mutual

theorem unwrapped_mergeValue {op : Operator} {present : Option Json} {incoming result : Json}
    (hpresent : ∀ value, present = some value → Unwrapped value)
    (htop : incoming.field? Operator.key = none) (honce : WrappedOnce incoming)
    (h : mergeValue op present incoming = .ok result) : Unwrapped result := by
  rcases object_or_not incoming with ⟨overlay, rfl⟩ | hobject
  · rw [mergeValue_object] at h
    obtain ⟨merged, hmerged, rfl⟩ := Outcome.map_eq_ok.mp h
    exact unwrapped_mergeFields (Unwrapped.ground hpresent op)
      (Fields.get?_eq_none_iff.mp htop) honce hmerged
  · rw [mergeValue_of_not_object hobject] at h
    cases h
    exact .other (settled_ne_object hobject)
termination_by (sizeOf incoming, 0)

theorem unwrapped_mergeFields {base overlay merged : Fields Json}
    (hbase : Unwrapped (.object base)) (htop : Operator.key ∉ Fields.keys overlay)
    (honce : WrappedOnce (.object overlay)) (h : mergeFields base overlay = .ok merged) :
    Unwrapped (.object merged) := by
  match overlay with
  | [] =>
      rw [mergeFields] at h
      cases h
      exact hbase
  | (key, incoming) :: rest =>
      rw [mergeFields] at h
      obtain ⟨fields, hfields, h⟩ := Outcome.bind_eq_ok.mp h
      obtain ⟨result, hresult, rfl⟩ := mergeKey_eq_ok.mp hfields
      obtain ⟨⟨named, payload⟩, hread, hresult⟩ := Outcome.bind_eq_ok.mp hresult
      obtain ⟨hkey, hnew⟩ := not_or.mp (mt List.mem_cons.mpr htop)
      cases honce with
      | other hobject => exact absurd rfl (hobject _)
      | cons hread' hinner hpayload hrest =>
          cases hread.symm.trans hread'
          have hsize : sizeOf payload ≤ sizeOf incoming := Operator.sizeOf_unwrap_le hread
          have hvalue : Unwrapped result :=
            unwrapped_mergeValue (fun value hheld => hbase.value hheld) hinner hpayload hresult
          exact unwrapped_mergeFields (hbase.replaceAt (Ne.symm hkey) hvalue) hnew hrest h
termination_by (sizeOf overlay, 1)

end

theorem unwrapped_mergeOnto {present result : Option Json} {fragment : Json}
    (hpresent : ∀ value, present = some value → Unwrapped value)
    (htop : fragment.field? Operator.key = none) (honce : WrappedOnce fragment)
    (h : mergeOnto present fragment = .ok result) :
    ∀ value, result = some value → Unwrapped value := by
  rw [mergeOnto_eq_mergeValue] at h
  obtain ⟨merged, hmerged, rfl⟩ := Outcome.map_eq_ok.mp h
  intro value hvalue
  cases hvalue
  exact unwrapped_mergeValue hpresent htop honce hmerged

theorem unwrapped_mergeFragments {fragments : List Json} {result : Option Json}
    (h : ∀ fragment ∈ fragments, fragment.field? Operator.key = none ∧ WrappedOnce fragment)
    (hmerge : mergeFragments fragments = .ok result) :
    ∀ value, result = some value → Unwrapped value := by
  have hstep : ∀ fragment ∈ fragments, ∀ present next,
      (∀ value, present = some value → Unwrapped value) →
      mergeOnto present fragment = .ok next → ∀ value, next = some value → Unwrapped value := by
    intro fragment hmem present next hpresent hnext
    obtain ⟨htop, honce⟩ := h fragment hmem
    exact unwrapped_mergeOnto hpresent htop honce hnext
  exact Outcome.of_foldlM_eq_ok hstep (fun value hnone => by cases hnone) hmerge

/-! ## What is wrapped twice shows -/

/-- A value that is put down alone keeps its keys, and so do the values in it. -/
theorem wrappedOnce_of_unwrapped (op : Operator) {incoming result : Json}
    (hdistinct : Distinct incoming) (h : mergeValue op none incoming = .ok result)
    (hresult : Unwrapped result) :
    incoming.field? Operator.key = none ∧ WrappedOnce incoming := by
  rcases object_or_not incoming with ⟨overlay, rfl⟩ | hobject
  · have hground : groundOf op none = [] := by cases op <;> rfl
    rw [mergeValue_object, hground] at h
    obtain ⟨merged, hmerged, rfl⟩ := Outcome.map_eq_ok.mp h
    have hlookup := mergeFields_lookup hdistinct.here hmerged
    refine ⟨?_, ?_⟩
    · cases hheld : Fields.get? Operator.key overlay with
      | none => exact hheld
      | some value =>
          have hkept := hlookup Operator.key
          rw [hheld] at hkept
          obtain ⟨inner, -, hinner⟩ := hkept
          exact absurd (Fields.isSome_get?_iff.mp (by rw [hinner]; rfl)) hresult.here
    · refine .of_entries fun entry hmem => ?_
      have hheld := Fields.get?_of_mem hdistinct.here hmem
      have hkept := hlookup entry.1
      rw [hheld] at hkept
      obtain ⟨inner, hmerge, hinner⟩ := hkept
      -- `inner` is the payload of the entry laid on nothing, and it is in the result.
      obtain ⟨⟨named, payload⟩, hread, hmerge⟩ := Outcome.bind_eq_ok.mp hmerge
      have hsize := Operator.sizeOf_unwrap_le hread
      have hsmaller := sizeOf_lt_of_held hheld (Nat.le_refl _)
      exact ⟨named, payload, hread, wrappedOnce_of_unwrapped _
        (distinct_of_unwrap hread (hdistinct.value hheld)) hmerge (hresult.value hinner)⟩
  · exact ⟨field?_of_not_object hobject _, .other hobject⟩
termination_by sizeOf incoming

/-- Fragments that name no operator themselves and are wrapped once merge to a value
without wrappers; and a single fragment that does so is wrapped once. -/
theorem unwrapped_of_wrappedOnce (fragments : List Json) (value : Json)
    (htop : ∀ fragment ∈ fragments, fragment.field? Operator.key = none)
    (hmerge : mergeFragments fragments = .ok (some value)) :
    ((∀ fragment ∈ fragments, WrappedOnce fragment) → Unwrapped value)
    ∧ ∀ fragment, fragments = [fragment] → Distinct fragment → Unwrapped value →
      WrappedOnce fragment := by
  constructor
  · intro honce
    exact unwrapped_mergeFragments (fun fragment hmem => ⟨htop fragment hmem, honce fragment hmem⟩)
      hmerge value rfl
  · rintro fragment rfl hdistinct hvalue
    have halone : mergeFragments [fragment] = mergeOnto none fragment := by
      rw [mergeFragments, List.foldlM_cons]
      simp only [List.foldlM_nil, bind_pure]
    rw [halone, mergeOnto_eq_mergeValue] at hmerge
    obtain ⟨merged, hmerged, hsome⟩ := Outcome.map_eq_ok.mp hmerge
    cases hsome
    exact (wrappedOnce_of_unwrapped .merge hdistinct hmerged hvalue).2

/-- Wrappers in a value that is merged, in one that is put down, and in what a wrapper
holds. -/
def nestedWrappers : List Json :=
  let wrap (op : String) (value : Json) : Json := .object [("$op", .text op), ("value", value)]
  [.object [("kept", .object [("list", .array [.integer 1])])],
    .object [("fresh", .object [("inner", wrap "merge" (.object [("x", .null)]))]),
      ("kept", wrap "merge" (.object [("list", wrap "add" (.array [.integer 2]))]))]]

theorem nestedWrappers_unwrapped :
    (∀ fragment ∈ nestedWrappers, fragment.field? Operator.key = none)
      ∧ (∀ fragment ∈ nestedWrappers, WrappedOnce fragment)
      ∧ ∃ value, mergeFragments nestedWrappers = .ok (some value) ∧ Unwrapped value := by
  have htop : ∀ fragment ∈ nestedWrappers, fragment.field? Operator.key = none :=
    List.forall_mem_cons.mpr ⟨rfl, List.forall_mem_singleton.mpr rfl⟩
  have honce : ∀ fragment ∈ nestedWrappers, WrappedOnce fragment := by
    refine List.forall_mem_cons.mpr ⟨?_, List.forall_mem_singleton.mpr ?_⟩
    · exact .cons rfl rfl (.cons rfl rfl (.other nofun) .nil) .nil
    · exact .cons rfl rfl (.cons rfl rfl (.cons rfl rfl (.other nofun) .nil) .nil)
        (.cons rfl rfl (.cons rfl rfl (.other nofun) .nil) .nil)
  have hmerge : mergeFragments nestedWrappers = .ok (some (.object
      [("fresh", .object [("inner", .object [("x", .null)])]),
        ("kept", .object [("list", .array [.integer 1, .integer 2])])])) := by cbv
  exact ⟨htop, honce, _, hmerge,
    (unwrapped_of_wrappedOnce nestedWrappers _ htop hmerge).1 honce⟩

/-- A wrapper that holds a wrapper, which is there in the end. -/
def wrappedTwice : Json :=
  .object [("a", .object [("$op", .text "replace"),
    ("value", .object [("$op", .text "add"), ("value", .array [.integer 1])])])]

theorem wrappedTwice_shows :
    wrappedTwice.field? Operator.key = none
      ∧ ∃ value, mergeFragments [wrappedTwice] = .ok (some value) ∧ ¬ Unwrapped value := by
  have hmerge : mergeFragments [wrappedTwice] = .ok (some (.object [("a", .object
      [("$op", .text "add"), ("value", .array [.integer 1])])])) := by cbv
  refine ⟨rfl, _, hmerge, fun h => ?_⟩
  have hinner : Unwrapped (.object [("$op", .text "add"), ("value", .array [.integer 1])]) :=
    h.value (show Fields.get? "a" _ = some _ from rfl)
  exact hinner.here List.mem_cons_self

end Strata.Merging
