import Strata.Encoding

/-!
# Dimensions

Rules are narrowed, and contexts described, along four dimensions. Each may
carry several values: in a rule any one of them will do, in a context they are
a value and its fallbacks. A dimension that is absent differs from one with no
values: in a rule the first constrains nothing and the second admits nothing.
-/

namespace Strata

/-- Values for one dimension. -/
structure Accepted where
  values : List String
  deriving DecidableEq, Repr

namespace Accepted

/-- Whether `value` is one of the values. -/
def contains (accepted : Accepted) (value : String) : Bool :=
  accepted.values.any (· = value)

/-- Whether the two have a value in common. -/
def intersects (accepted other : Accepted) : Bool :=
  other.values.any accepted.contains

/-- Values are written as an array of texts. -/
def toJson (accepted : Accepted) : Json :=
  Json.texts accepted.values

/-- A single text is read as one value. -/
def ofJson? : Json → Option Accepted
  | .text value => some ⟨[value]⟩
  | value => value.textList?.map Accepted.mk

/-- Values that may be absent: null is read as absent. -/
def optional? : Option Json → Option (Option Accepted)
  | none => some none
  | some .null => some none
  | some value => (ofJson? value).map some

end Accepted

/-- The dimensions that count for specificity. -/
inductive Dimension
  | user
  | theme
  | locale
  | application
  deriving DecidableEq, Repr

namespace Dimension

/-- All dimensions, heaviest first. -/
def all : List Dimension := [.user, .theme, .locale, .application]

/-- What a constraint on a dimension adds to the specificity. The weights are
powers of two, so a specificity tells which dimensions are constrained. -/
def weight : Dimension → Nat
  | .user => 8
  | .theme => 4
  | .locale => 2
  | .application => 1

def name : Dimension → String
  | .user => "user"
  | .theme => "theme"
  | .locale => "locale"
  | .application => "application"

def ofName? (text : String) : Option Dimension :=
  all.find? fun dimension => dimension.name = text

theorem mem_all (dimension : Dimension) : dimension ∈ all := by
  cases dimension <;> decide

@[simp] theorem ofName?_name (dimension : Dimension) :
    ofName? dimension.name = some dimension := by
  cases dimension <;> decide

end Dimension

/-- Values per dimension, for each of the four or for some of them. -/
structure Dimensions where
  application : Option Accepted := none
  user : Option Accepted := none
  theme : Option Accepted := none
  locale : Option Accepted := none
  deriving DecidableEq, Repr, Inhabited

namespace Dimensions

/-- The values of a dimension, if it is present. -/
def get (dimensions : Dimensions) : Dimension → Option Accepted
  | .user => dimensions.user
  | .theme => dimensions.theme
  | .locale => dimensions.locale
  | .application => dimensions.application

/-- The same with other values for one dimension. -/
def set (dimensions : Dimensions) (dimension : Dimension) (values : Accepted) : Dimensions :=
  match dimension with
  | .user => { dimensions with user := some values }
  | .theme => { dimensions with theme := some values }
  | .locale => { dimensions with locale := some values }
  | .application => { dimensions with application := some values }

@[simp] theorem get_set_self (dimensions : Dimensions) (dimension : Dimension)
    (values : Accepted) : (dimensions.set dimension values).get dimension = some values := by
  cases dimension <;> rfl

theorem get_set_of_ne {dimension other : Dimension} (ne : other ≠ dimension)
    (dimensions : Dimensions) (values : Accepted) :
    (dimensions.set dimension values).get other = dimensions.get other := by
  cases dimension <;> cases other <;> simp_all [set, get]

/-- Each dimension that `upper` has is taken from it, the others from `lower`. -/
def overlay (lower upper : Dimensions) : Dimensions where
  application := upper.application.or lower.application
  user := upper.user.or lower.user
  theme := upper.theme.or lower.theme
  locale := upper.locale.or lower.locale

theorem get_overlay (lower upper : Dimensions) (dimension : Dimension) :
    (lower.overlay upper).get dimension = (upper.get dimension).or (lower.get dimension) := by
  cases dimension <;> rfl

/-- The names of the fields, in the order in which they are written. -/
def fieldNames : List String := ["application", "user", "theme", "locale"]

/-- The fields of the dimensions that are present. -/
def fields (dimensions : Dimensions) : List (String × Json) :=
  let present (name : String) (values : Option Accepted) : List (String × Json) :=
    values.toList.map fun accepted => (name, accepted.toJson)
  present "application" dimensions.application ++ present "user" dimensions.user
    ++ present "theme" dimensions.theme ++ present "locale" dimensions.locale

/-- The dimensions among the fields of a record. -/
def ofFields? (record : Fields Json) : Option Dimensions := do
  let application ← Accepted.optional? (Fields.get? "application" record)
  let user ← Accepted.optional? (Fields.get? "user" record)
  let theme ← Accepted.optional? (Fields.get? "theme" record)
  let locale ← Accepted.optional? (Fields.get? "locale" record)
  pure { application, user, theme, locale }

end Dimensions

/-- The circumstances that rules are matched against. -/
abbrev Context := Dimensions

namespace Context

def toJson (context : Context) : Json :=
  .object context.fields

def ofJson? (encoding : Encoding) (value : Json) : Option Context := do
  let record ← encoding.record? Dimensions.fieldNames value
  Dimensions.ofFields? record

end Context

end Strata
