import Strata.Encoding
import Strata.Toml.Datetime

/-!
# TOML values

A table keeps its entries in the order of the document, every key once.

Where a table is expected a date-time may stand as well: it passes for a table
with its text under a reserved key. In turn a table that begins with the
reserved key is a date-time where any value may stand, and refused there if the
text is none.

`toJson?` gives a value as a configuration fragment: numbers that JSON lacks are
null, and date-times are texts. `record` gives it as what records are read from,
where a date-time is still no text and a number still a number.
-/

namespace Strata.Toml

inductive Value
  | string (value : String)
  | integer (value : Int)
  | float (value : Binary64)
  | boolean (value : Bool)
  | datetime (value : Datetime)
  | array (items : List Value)
  | table (entries : List (String × Value))
  deriving Inhabited, Repr

namespace Value

/-- The key under which a date-time passes for a table. -/
def reservedKey : String := "$__toml_private_datetime"

/-- The table that a value is or passes for. -/
def entries? : Value → Option (List (String × Value))
  | .table entries => some entries
  | .datetime value => some [(reservedKey, .string value.text)]
  | _ => none

def string? : Value → Option String
  | .string value => some value
  | _ => none

/-- A number as a binary64 value; an integer is rounded to the nearest one. -/
def number? : Value → Option Binary64
  | .integer value => some (.ofInt value)
  | .float value => some value
  | _ => none

def items? : Value → Option (List Value)
  | .array items => some items
  | _ => none

/-- The fragment for a number, if JSON has that number, and null otherwise. -/
def jsonOfFloat (value : Binary64) : Json :=
  if value.isFinite then .real value else .null

mutual

/-- The value as a configuration fragment. -/
def toJson? : Value → Option Json
  | .string value => some (.text value)
  | .integer value => some (.integer value)
  | .float value => some (jsonOfFloat value)
  | .boolean value => some (.boolean value)
  | .datetime value => some (.text value.text)
  | .array items => Json.array <$> itemsToJson? items
  | .table [] => some .empty
  | .table ((key, value) :: rest) =>
    if key = reservedKey then do
      let text ← value.string?
      let spelled ← Datetime.ofText? text
      pure (.text spelled.text)
    else do
      let value ← value.toJson?
      let rest ← entriesToJson? rest
      pure (.object (Fields.ofList ((key, value) :: rest)))

def itemsToJson? : List Value → Option (List Json)
  | [] => some []
  | item :: rest => do
    let item ← item.toJson?
    let rest ← itemsToJson? rest
    pure (item :: rest)

def entriesToJson? : List (String × Value) → Option (List (String × Json))
  | [] => some []
  | (key, value) :: rest => do
    let value ← value.toJson?
    let rest ← entriesToJson? rest
    pure ((key, value) :: rest)

end

mutual

/-- The value as something that a record may be read from. -/
def document : Value → Json
  | .string value => .text value
  | .integer value => .integer value
  | .float value => .real value
  | .boolean value => .boolean value
  | .datetime value => .object [(reservedKey, .text value.text)]
  | .array items => .array (itemDocuments items)
  | .table entries => .object (Fields.ofList (entryDocuments entries))

def itemDocuments : List Value → List Json
  | [] => []
  | item :: rest => item.document :: itemDocuments rest

def entryDocuments : List (String × Value) → List (String × Json)
  | [] => []
  | (key, value) :: rest => (key, value.document) :: entryDocuments rest

end

/-- The fields of a record with the given names, if the value is one: a table
without other keys, or an array that lists the first fields in order. -/
def fields? (names : List String) : Value → Option (List (String × Value))
  | .array items => some (names.zip items)
  | value => do
    let entries ← value.entries?
    if entries.all fun entry => names.contains entry.1 then some entries else none

end Value

end Strata.Toml
