import Strata.Fields
import Strata.Binary64

/-!
# JSON values

Configuration fragments, dependency values and results are JSON values. An
integral number in the range of 64-bit words, signed or unsigned, is kept as an
integer; any other number is a binary64 value. An object is its fields in
strictly increasing key order, at every depth: `WellFormed` says so, and two
well-formed values are equal exactly when they denote the same value.
-/

namespace Strata

inductive Json
  | null
  | boolean (value : Bool)
  | integer (value : Int)
  | real (value : Binary64)
  | text (value : String)
  | array (items : List Json)
  | object (fields : List (String × Json))
  deriving Inhabited, Repr

namespace Json

/-- The object without fields. -/
def empty : Json := .object []

def isNull : Json → Bool
  | .null => true
  | _ => false

/-- The field `key` of an object; other values have no fields. -/
def field? (key : String) : Json → Option Json
  | .object fields => Fields.get? key fields
  | _ => none

def text? : Json → Option String
  | .text value => some value
  | _ => none

def texts (values : List String) : Json :=
  .array (values.map .text)

mutual

/-- Every object in the value lists its keys in strictly increasing order. -/
def WellFormed : Json → Prop
  | .array items => AllWellFormed items
  | .object fields => Fields.Sorted fields ∧ FieldsWellFormed fields
  | _ => True

/-- Every item is well formed. -/
def AllWellFormed : List Json → Prop
  | [] => True
  | item :: rest => item.WellFormed ∧ AllWellFormed rest

/-- Every field holds a well-formed value. -/
def FieldsWellFormed : List (String × Json) → Prop
  | [] => True
  | (_, value) :: rest => value.WellFormed ∧ FieldsWellFormed rest

end

end Json

end Strata
