import Strata.Selector
import Strata.Fields.Sorted
import Strata.Proofs.Legible

/-!
# Selectors and contexts survive being written

What a record is read from and what it is written to differ in almost every form. Reading
takes an object or an array by position, a text or an array of texts, null for what is
absent and, for the module entries of a selector, null for an entry that is empty. Writing
gives an object, an array for each part that is present and no field for one that is absent.

The two meet in the look-ups. A record is read by its look-ups alone, so it does not matter
how its fields are ordered, and what is held at each name of a written record is known: the
values that are there, written, or nothing. Both forms are read as those values.

On the way through a text the fields are put in key order, which the look-ups do not show.
-/

namespace Strata

/-! ## Look-ups -/

theorem Fields.get?_toList_map {α β : Type} (write : α → β) (key name : String)
    (held : Option α) :
    Fields.get? key (held.toList.map fun value => (name, write value))
      = if key = name then held.map write else none := by
  cases held with
  | none => simp
  | some value => simp [Fields.get?]

theorem Fields.keys_toList_map {α β : Type} (write : α → β) (name : String)
    (held : Option α) :
    (Fields.keys (held.toList.map fun value => (name, write value))).Sublist [name] := by
  cases held with
  | none => exact List.nil_sublist _
  | some value => exact List.Sublist.refl _

theorem mapM_map_eq_some {α β : Type} {read : β → Option α} {write : α → β}
    (h : ∀ item, read (write item) = some item) (items : List α) :
    (items.map write).mapM read = some items := by
  induction items with
  | nil => rfl
  | cons item items ih => simp [h, ih]

namespace Accepted

theorem ofJson?_toJson (accepted : Accepted) : ofJson? accepted.toJson = some accepted := by
  have hread : (accepted.values.map Json.text).mapM Json.text? = some accepted.values := by
    refine mapM_map_eq_some (fun value => ?_) accepted.values
    rfl
  simp [toJson, Json.texts, ofJson?, Json.textList?, hread]

theorem optional?_toJson (held : Option Accepted) :
    optional? (held.map toJson) = some held := by
  cases held with
  | none => rfl
  | some accepted =>
      have hread := accepted.ofJson?_toJson
      rw [toJson, Json.texts] at hread
      simp [toJson, Json.texts, optional?, hread]

theorem readAs_toJson (accepted : Accepted) : Json.ReadAs accepted.toJson accepted.toJson := by
  refine Json.readAs_array fun item hitem => ?_
  obtain ⟨value, -, rfl⟩ := List.mem_map.mp hitem
  exact Json.readAs_text value

end Accepted

/-! ## Records -/

theorem Encoding.record?_of_lookups (encoding : Encoding) {names : List String}
    {fields record : Fields Json} (hnames : (Fields.keys fields).Sublist names)
    (h : ∀ key, Fields.get? key record = Fields.get? key fields) :
    encoding.record? names (.object record) = some record := by
  have hkeys : (Fields.keys record).all names.contains = true := by
    refine List.all_eq_true.mpr fun key hkey => List.contains_iff_mem.mpr (hnames.subset ?_)
    rw [← Fields.isSome_get?_iff, h, Fields.isSome_get?_iff] at hkey
    exact hkey
  rw [record?, if_pos hkeys]

/-- On the way through a text an object only has its fields put in order. -/
theorem Json.exists_record_of_text {fields : Fields Json} {names : List String}
    (hnames : (Fields.keys fields).Sublist names) (hdistinct : names.Nodup)
    (hfields : ∀ field ∈ fields, ReadAs field.2 field.2) :
    ∃ record, parse? (Json.object fields).compact = some (.object record)
      ∧ ∀ key, Fields.get? key record = Fields.get? key fields :=
  ⟨Fields.ofList fields, parse?_compact (readAs_object hfields),
    Fields.get?_ofList (hnames.nodup hdistinct)⟩

namespace Dimensions

theorem get?_fields (dimensions : Dimensions) (dimension : Dimension) :
    Fields.get? dimension.name dimensions.fields
      = (dimensions.get dimension).map Accepted.toJson := by
  cases dimension <;>
    simp [fields, Fields.get?_append, Fields.get?_toList_map, Dimension.name, get]

theorem keys_fields (dimensions : Dimensions) :
    (Fields.keys dimensions.fields).Sublist fieldNames := by
  have hone := fun name held => Fields.keys_toList_map Accepted.toJson name held
  simp only [fields, Fields.keys, List.map_append] at hone ⊢
  exact (((hone "application" _).append (hone "user" _)).append (hone "theme" _)).append
    (hone "locale" _)

theorem ofFields?_of_lookups {dimensions : Dimensions} {record : Fields Json}
    (h : ∀ dimension : Dimension, Fields.get? dimension.name record
      = Fields.get? dimension.name dimensions.fields) :
    ofFields? record = some dimensions := by
  have hread : ∀ dimension : Dimension, Accepted.optional?
      (Fields.get? dimension.name record) = some (dimensions.get dimension) := fun dimension => by
    rw [h, get?_fields, Accepted.optional?_toJson]
  have happlication := hread .application
  have huser := hread .user
  have htheme := hread .theme
  have hlocale := hread .locale
  simp only [Dimension.name] at happlication huser htheme hlocale
  simp [ofFields?, happlication, huser, htheme, hlocale, get]

theorem exists_accepted_of_mem_fields {dimensions : Dimensions} {field : String × Json}
    (h : field ∈ dimensions.fields) : ∃ accepted : Accepted, field.2 = accepted.toJson := by
  simp only [fields, List.mem_append, List.mem_map] at h
  rcases h with ((h | h) | h) | h
  all_goals
    obtain ⟨accepted, -, rfl⟩ := h
    exact ⟨accepted, rfl⟩

end Dimensions

namespace Context

theorem ofJson?_of_lookups (encoding : Encoding) {context : Context} {record : Fields Json}
    (h : ∀ key, Fields.get? key record = Fields.get? key context.fields) :
    ofJson? encoding (.object record) = some context := by
  rw [ofJson?, encoding.record?_of_lookups context.keys_fields h]
  exact Dimensions.ofFields?_of_lookups fun dimension => h dimension.name

theorem ofJson?_text (context : Context) :
    (Json.parse? context.toJson.compact).bind (ofJson? .json) = some context := by
  obtain ⟨record, hparse, hrecord⟩ := Json.exists_record_of_text context.keys_fields
    (by decide) fun field hfield => by
      obtain ⟨accepted, hheld⟩ := Dimensions.exists_accepted_of_mem_fields hfield
      rw [hheld]
      exact accepted.readAs_toJson
  rw [toJson, hparse]
  exact ofJson?_of_lookups .json hrecord

end Context

namespace Selector

/-- The fields of a selector as it is written. -/
def fields (selector : Selector) : Fields Json :=
  ("module", .array (selector.modules.map fun id => (id.map Json.text).getD .null))
    :: selector.dimensions.fields ++ Criteria.annotationField selector.annotationIds

theorem toJson_eq (selector : Selector) : selector.toJson = .object selector.fields :=
  rfl

theorem keys_fields (selector : Selector) :
    (Fields.keys selector.fields).Sublist fieldNames := by
  have hids := Fields.keys_toList_map Accepted.toJson "annotation" selector.annotationIds
  have hdimensions := selector.dimensions.keys_fields
  simp only [fields, Criteria.annotationField, Fields.keys, List.cons_append, List.map_cons,
    List.map_append] at hids hdimensions ⊢
  exact (hdimensions.append hids).cons_cons "module"

theorem get?_fields_dimension (selector : Selector) (dimension : Dimension) :
    Fields.get? dimension.name selector.fields
      = Fields.get? dimension.name selector.dimensions.fields := by
  have hmodule : dimension.name ≠ "module" := by cases dimension <;> decide
  have hids : dimension.name ≠ "annotation" := by cases dimension <;> decide
  simp [fields, Criteria.annotationField, Fields.get?, Fields.get?_append,
    Fields.get?_toList_map, hmodule, hids]

theorem get?_fields_annotation (selector : Selector) :
    Fields.get? "annotation" selector.fields = selector.annotationIds.map Accepted.toJson := by
  have hdimensions : Fields.get? "annotation" selector.dimensions.fields = none := by
    rw [← Option.not_isSome_iff_eq_none, Fields.isSome_get?_iff]
    exact fun h => absurd (selector.dimensions.keys_fields.subset h) (by decide)
  simp [fields, Criteria.annotationField, Fields.get?, Fields.get?_append,
    Fields.get?_toList_map, hdimensions]

theorem entries?_map (modules : List (Option String)) :
    entries? (.array (modules.map fun id => (id.map Json.text).getD .null)) = some modules := by
  refine mapM_map_eq_some (fun id => ?_) modules
  cases id <;> rfl

theorem ofJson?_of_lookups (encoding : Encoding) {selector : Selector} {record : Fields Json}
    (h : ∀ key, Fields.get? key record = Fields.get? key selector.fields) :
    ofJson? encoding (.object record) = some selector := by
  have hmodule : Fields.get? "module" record
      = some (.array (selector.modules.map fun id => (id.map Json.text).getD .null)) := by
    rw [h]
    rfl
  have hdimensions : Dimensions.ofFields? record = some selector.dimensions :=
    Dimensions.ofFields?_of_lookups fun dimension => by
      rw [h, selector.get?_fields_dimension]
  have hids : Accepted.optional? (Fields.get? "annotation" record)
      = some selector.annotationIds := by
    rw [h, selector.get?_fields_annotation, Accepted.optional?_toJson]
  simp [ofJson?, encoding.record?_of_lookups selector.keys_fields h, hmodule,
    entries?_map, hdimensions, hids]

theorem readAs_of_mem_fields {selector : Selector} {field : String × Json}
    (h : field ∈ selector.fields) : Json.ReadAs field.2 field.2 := by
  rcases List.mem_append.mp h with h | h
  · rcases List.mem_cons.mp h with rfl | h
    · refine Json.readAs_array fun item hitem => ?_
      obtain ⟨id, -, rfl⟩ := List.mem_map.mp hitem
      cases id with
      | none => exact Json.readAs_null
      | some id => exact Json.readAs_text id
    · obtain ⟨accepted, hheld⟩ := Dimensions.exists_accepted_of_mem_fields h
      rw [hheld]
      exact accepted.readAs_toJson
  · obtain ⟨accepted, -, rfl⟩ := List.mem_map.mp h
    exact accepted.readAs_toJson

theorem ofJson?_text (selector : Selector) :
    (Json.parse? selector.toJson.compact).bind (ofJson? .json) = some selector := by
  obtain ⟨record, hparse, hrecord⟩ := Json.exists_record_of_text selector.keys_fields
    (by decide) fun _ => readAs_of_mem_fields
  rw [toJson_eq, hparse]
  exact ofJson?_of_lookups .json hrecord

end Selector

/-- Every selector and every context is read back from what it is written to, as a value and
as a text, and so is whatever a value was read as, in any of the forms that are read. -/
theorem written_records_read_back :
    (∀ selector : Selector,
      (∀ encoding, Selector.ofJson? encoding selector.toJson = some selector)
        ∧ (Json.parse? selector.toJson.compact).bind (Selector.ofJson? .json) = some selector)
    ∧ (∀ context : Context,
      (∀ encoding, Context.ofJson? encoding context.toJson = some context)
        ∧ (Json.parse? context.toJson.compact).bind (Context.ofJson? .json) = some context)
    ∧ (∀ encoding value selector, Selector.ofJson? encoding value = some selector →
      Selector.ofJson? encoding selector.toJson = some selector)
    ∧ ∀ encoding value context, Context.ofJson? encoding value = some context →
      Context.ofJson? encoding context.toJson = some context := by
  have hselector : ∀ (selector : Selector) (encoding : Encoding),
      Selector.ofJson? encoding selector.toJson = some selector := fun selector encoding =>
    Selector.ofJson?_of_lookups encoding fun _ => rfl
  have hcontext : ∀ (context : Context) (encoding : Encoding),
      Context.ofJson? encoding context.toJson = some context := fun context encoding =>
    Context.ofJson?_of_lookups encoding fun _ => rfl
  exact ⟨fun selector => ⟨hselector selector, selector.ofJson?_text⟩,
    fun context => ⟨hcontext context, context.ofJson?_text⟩,
    fun encoding _ selector _ => hselector selector encoding,
    fun encoding _ context _ => hcontext context encoding⟩

def nameless : Selector where
  modules := [none]
  dimensions := { user := some ⟨["ann"]⟩ }

def nightly : Context where
  application := some ⟨["desk", "pad"]⟩
  theme := some ⟨[]⟩

/-- A selector and a context by position, with null, a text alone and arrays. -/
theorem positional_forms_read_back :
    Selector.ofJson? .json (.array [.null, .null, .text "ann"]) = some nameless
      ∧ Selector.ofJson? .json nameless.toJson = some nameless
      ∧ Context.ofJson? .json (.array [Json.texts ["desk", "pad"], .null, .array []])
        = some nightly
      ∧ Context.ofJson? .json nightly.toJson = some nightly := by
  have hselector : Selector.ofJson? .json (.array [.null, .null, .text "ann"])
      = some nameless := rfl
  have hcontext : Context.ofJson? .json
      (.array [Json.texts ["desk", "pad"], .null, .array []]) = some nightly := rfl
  obtain ⟨-, -, hselectors, hcontexts⟩ := written_records_read_back
  exact ⟨hselector, hselectors _ _ _ hselector, hcontext, hcontexts _ _ _ hcontext⟩

end Strata
