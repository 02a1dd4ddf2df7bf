import Strata.Merge
import Strata.Proofs.Combine
import Strata.Proofs.Outcomes

/-!
# The merge combines

The merge walks the entries of an overlay and takes out, combines and puts back one
key after the other. The keys of an overlay are distinct, so no step sees what an
earlier one has put down, and the walk comes to the look-ups of `laid`. The induction
is on the size of the incoming value, which unwrapping does not enlarge.

Nothing is said of a merge that faults. Where it succeeds, every wrapper on its way
has named an operator, and there `reading` and `Operator.unwrap` agree.
-/

namespace Strata.Merging

/-- The outcome of an incoming value at a key that holds `present`. -/
def mergeAt (present : Option Json) (incoming : Json) : Outcome Json := do
  let (named, value) ← Operator.unwrap incoming
  mergeValue (named.getD (Operator.byShape present value)) present value

theorem mergeKey_eq_ok {target fields : Fields Json} {key : String} {incoming : Json} :
    mergeKey target key incoming = .ok fields ↔
      ∃ merged, mergeAt (Fields.get? key target) incoming = .ok merged
        ∧ fields = Fields.put key merged (Fields.erase key target) := by
  rw [mergeKey, mergeAt]
  split
  · next fault hfault =>
      rw [hfault]
      constructor
      · intro h
        cases h
      · rintro ⟨merged, h, -⟩
        cases h
  · next named value hread =>
      rw [hread, Outcome.bind_eq_ok]
      constructor
      · rintro ⟨merged, hmerged, h⟩
        cases h
        exact ⟨merged, hmerged, rfl⟩
      · rintro ⟨merged, hmerged, rfl⟩
        exact ⟨merged, hmerged, rfl⟩

theorem find?_of_ofName {name : String} {op : Operator} (h : Operator.ofName name = .ok op) :
    ([.replace, .merge, .add].find? fun op : Operator => op.name = name) = some op := by
  unfold Operator.ofName at h
  split at h
  · next hname =>
      cases h
      rw [hname]
      rfl
  · split at h
    · next hname =>
        cases h
        rw [hname]
        rfl
    · split at h
      · next hname =>
          cases h
          rw [hname]
          rfl
      · cases h

/-- Unwrapping reads an incoming value as its operator and payload. -/
theorem reading_of_unwrap {incoming value : Json} {named : Option Operator}
    (h : Operator.unwrap incoming = .ok (named, value)) (present : Option Json) :
    reading present incoming = (named.getD (Operator.byShape present value), value) := by
  cases incoming with
  | object fields =>
      rw [Operator.unwrap] at h
      rw [reading, wrapped?]
      split at h
      · next hnone =>
          cases h
          rw [hnone]
          rfl
      · next name hname =>
          obtain ⟨op, hop, h⟩ := Outcome.bind_eq_ok.mp h
          cases h
          rw [hname]
          dsimp only
          rw [find?_of_ofName hop]
          rfl
      · cases h
  | null | boolean _ | integer _ | real _ | text _ | array _ =>
      cases h
      rfl

theorem distinct_of_unwrap {incoming value : Json} {named : Option Operator}
    (h : Operator.unwrap incoming = .ok (named, value)) (hdistinct : Distinct incoming) :
    Distinct value := by
  cases incoming with
  | object fields =>
      rw [Operator.unwrap] at h
      split at h
      · cases h
        exact hdistinct
      · obtain ⟨op, -, h⟩ := Outcome.bind_eq_ok.mp h
        cases h
        exact hdistinct.payload
      · cases h
  | null | boolean _ | integer _ | real _ | text _ | array _ =>
      cases h
      exact hdistinct

theorem mergeValue_object (op : Operator) (present : Option Json) (overlay : Fields Json) :
    mergeValue op present (.object overlay) =
      Json.object <$> mergeFields (groundOf op present) overlay := by
  unfold mergeValue
  split
  · next hoverlay =>
      cases hoverlay
      rfl
  · next hoverlay => cases hoverlay
  · next op present _ _ _ hmerge hadd =>
      have hground : groundOf op present = [] := by
        unfold groundOf
        split
        · next base => exact absurd rfl (hmerge base overlay rfl rfl)
        · rfl
      rw [resolveReplacement, hground]
      rfl

theorem resolveReplacement_of_not_object {value : Json}
    (h : ∀ fields, value ≠ .object fields) : resolveReplacement value = .ok value := by
  rw [resolveReplacement]
  exact h

theorem mergeValue_of_not_object {payload : Json} (h : ∀ fields, payload ≠ .object fields)
    (op : Operator) (present : Option Json) :
    mergeValue op present payload = .ok (settled op present payload) := by
  unfold mergeValue
  split
  · next base overlay => exact absurd rfl (h overlay)
  · rfl
  · next hmerge hadd =>
      have hsettled : settled op present payload = payload := by
        unfold settled
        split
        · next base more => exact absurd rfl (hadd base more rfl rfl)
        · rfl
      rw [hsettled, resolveReplacement_of_not_object h]

/-- Laying a value on another is merging it, by the operator that merges objects. -/
theorem mergePair_eq_mergeValue (base overlay : Json) :
    mergePair base overlay = mergeValue .merge (some base) overlay := by
  unfold mergePair mergeValue
  split
  · rfl
  · next hobjects =>
      split
      · next hbase => exact absurd rfl (hobjects _ _ (Option.some.inj hbase))
      · next hadd _ => cases hadd
      · rfl

theorem mergeOnto_eq_mergeValue (present : Option Json) (fragment : Json) :
    mergeOnto present fragment = some <$> mergeValue .merge present fragment := by
  cases present with
  | none =>
      rw [mergeOnto, mergeValue]
      · exact fun base overlay _ hnone => by cases hnone
      · exact fun base overlay hadd => by cases hadd
  | some base => rw [mergeOnto, mergePair_eq_mergeValue]

section Walk

variable {base overlay merged : Fields Json}

theorem sorted_mergeFields (hsorted : Fields.Sorted base)
    (h : mergeFields base overlay = .ok merged) : Fields.Sorted merged := by
  induction overlay generalizing base with
  | nil =>
      rw [mergeFields] at h
      cases h
      exact hsorted
  | cons entry rest ih =>
      rw [mergeFields] at h
      obtain ⟨fields, hfields, h⟩ := Outcome.bind_eq_ok.mp h
      obtain ⟨result, -, rfl⟩ := mergeKey_eq_ok.mp hfields
      exact ih (Fields.sorted_put (Fields.sorted_erase hsorted)) h

/-- The walk along an overlay meets each key of it once, and finds there what the base
holds. -/
theorem mergeFields_lookup (hkeys : (Fields.keys overlay).Nodup)
    (h : mergeFields base overlay = .ok merged) (key : String) :
    match Fields.get? key overlay with
    | none => Fields.get? key merged = Fields.get? key base
    | some value => ∃ result, mergeAt (Fields.get? key base) value = .ok result
        ∧ Fields.get? key merged = some result := by
  induction overlay generalizing base with
  | nil =>
      rw [mergeFields] at h
      cases h
      rfl
  | cons entry rest ih =>
      obtain ⟨name, incoming⟩ := entry
      obtain ⟨hnew, hrest⟩ := List.nodup_cons.mp hkeys
      rw [mergeFields] at h
      obtain ⟨fields, hfields, h⟩ := Outcome.bind_eq_ok.mp h
      obtain ⟨result, hresult, rfl⟩ := mergeKey_eq_ok.mp hfields
      have hlater := ih hrest h
      rw [Fields.get?_cons]
      by_cases hkey : key = name
      · subst hkey
        rw [Fields.get?_eq_none_iff.mpr hnew, Fields.get?_put_self] at hlater
        rw [if_pos rfl]
        exact ⟨result, hresult, hlater⟩
      · rw [Fields.get?_put_of_ne hkey, Fields.get?_erase_of_ne hkey] at hlater
        rw [if_neg hkey]
        exact hlater

/-- The walk lays the overlay on the base, if the merge combines at each key. -/
theorem mergeFields_eq_laid (hsorted : Fields.Sorted base)
    (hkeys : (Fields.keys overlay).Nodup)
    (hcombines : ∀ key value result, Fields.get? key overlay = some value →
      mergeAt (Fields.get? key base) value = .ok result →
        result = combine (Fields.get? key base) value)
    (h : mergeFields base overlay = .ok merged) : merged = laid base overlay := by
  refine Fields.eq_of_get?_eq (sorted_mergeFields hsorted h) sorted_laid fun key => ?_
  have hlookup := mergeFields_lookup hkeys h key
  rw [get?_laid, laidAt]
  cases hheld : Fields.get? key overlay with
  | none =>
      rw [hheld] at hlookup
      exact hlookup
  | some value =>
      rw [hheld] at hlookup
      obtain ⟨result, hresult, hmerged⟩ := hlookup
      rw [hmerged, hcombines key value result hheld hresult]

end Walk

/-- Where the merge of a value succeeds, it combines. -/
theorem mergeAt_eq_combine (incoming : Json) (hdistinct : Distinct incoming)
    {present : Option Json} (htidy : ∀ value, present = some value → Tidy value)
    {result : Json} (h : mergeAt present incoming = .ok result) :
    result = combine present incoming := by
  obtain ⟨⟨named, payload⟩, hread, h⟩ := Outcome.bind_eq_ok.mp h
  have hreading := reading_of_unwrap hread present
  rcases object_or_not payload with ⟨overlay, rfl⟩ | hobject
  · have hsize := Operator.sizeOf_unwrap_le hread
    have hoverlay := distinct_of_unwrap hread hdistinct
    have hground := Tidy.ground htidy (named.getD (Operator.byShape present (.object overlay)))
    rw [combine_of_object hreading]
    dsimp only at h
    rw [mergeValue_object] at h
    obtain ⟨merged, hmerged, rfl⟩ := Outcome.map_eq_ok.mp h
    rw [mergeFields_eq_laid hground.here hoverlay.here ?_ hmerged]
    intro key inner result hinner hresult
    have hsmaller := sizeOf_lt_of_held hinner hsize
    exact mergeAt_eq_combine inner (hoverlay.value hinner)
      (fun below hbelow => hground.value hbelow) hresult
  · rw [combine_of_not_object hreading hobject]
    dsimp only at h
    rw [mergeValue_of_not_object hobject] at h
    cases h
    rfl
termination_by sizeOf incoming

/-- Where the merge of an overlay succeeds, it lays the overlay on the base. -/
theorem mergeFields_laid {base overlay merged : Fields Json} (hbase : Tidy (.object base))
    (hoverlay : Distinct (.object overlay)) (h : mergeFields base overlay = .ok merged) :
    merged = laid base overlay :=
  mergeFields_eq_laid hbase.here hoverlay.here
    (fun _ value _ hheld hresult => mergeAt_eq_combine value (hoverlay.value hheld)
      (fun _ hbelow => hbase.value hbelow) hresult) h

end Strata.Merging
