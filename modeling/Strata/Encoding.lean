import Strata.Json
import Strata.Binary64.Rounding

/-!
# Records in documents

Selectors, contexts and the entries of a cascade file are records. In a
document a record is an object with the record's field names, or an array that
lists its first fields in order. A choice among names is a text, or an object
with one field that names the choice and holds nothing.

Two document formats are read, and they differ in two points only: whether
items beyond the last field of a record are tolerated, and what counts as
nothing. An `Encoding` settles both.
-/

namespace Strata

/-- How a document format writes records and choices. -/
structure Encoding where
  /-- Whether an array may have more items than the record has fields. -/
  toleratesSurplus : Bool
  /-- Whether a value stands for nothing beside the name of a choice. -/
  isNothing : Json → Bool

namespace Encoding

/-- JSON documents: no surplus, and nothing is null. -/
def json : Encoding where
  toleratesSurplus := false
  isNothing := Json.isNull

/-- TOML documents: surplus is tolerated, and nothing is an empty table or array. -/
def toml : Encoding where
  toleratesSurplus := true
  isNothing
    | .array [] => true
    | .object [] => true
    | _ => false

/-- The fields of a record with the given names, if the value is one. -/
def record? (encoding : Encoding) (names : List String) : Json → Option (Fields Json)
  | .object fields =>
    if (Fields.keys fields).all names.contains then some fields else none
  | .array items =>
    if encoding.toleratesSurplus || items.length ≤ names.length then some (names.zip items)
    else none
  | _ => none

/-- The name of a choice, if the value is one. -/
def choice? (encoding : Encoding) : Json → Option String
  | .text name => some name
  | .object [(name, value)] => if encoding.isNothing value then some name else none
  | _ => none

end Encoding

namespace Json

/-- A number as a binary64 value; an integer is rounded to the nearest one. -/
def number? : Json → Option Binary64
  | .integer n => some (.ofInt n)
  | .real x => some x
  | _ => none

/-- A number that may be absent: null is read as absent. -/
def optionalNumber? : Option Json → Option (Option Binary64)
  | none => some none
  | some .null => some none
  | some value => value.number?.map some

/-- The texts of an array of texts. -/
def textList? : Json → Option (List String)
  | .array items => items.mapM text?
  | _ => none

end Json

end Strata
