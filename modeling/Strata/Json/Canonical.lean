import Strata.Json.Printer
import Strata.Text.Units

/-!
# Canonical JSON text

The one text of a value that digests are taken of, after RFC 8785: no blanks,
fields in the order of the UTF-16 units of their keys, and every number,
integers included, as its nearest binary64 value is written in ECMAScript.
-/

namespace Strata.Json

/-- Numbers are positional from `0.000001` up to 21 digits before the point,
integral ones have no fraction, zero has no sign, and of two nearest decimals the
even one is written. -/
def canonicalNumberLayout : Binary64.Layout where
  positional point := -5 ≤ point && point ≤ 21
  keepsFraction := false
  signsZero := false
  tie := .toEven

/-- Entries sorted by key and joined. -/
def canonicalObject (entries : List (String × String)) : String :=
  let sorted := entries.mergeSort fun x y => Text.unitsLe x.1 y.1
  "\x7b" ++ ",".intercalate (sorted.map fun entry => stringText entry.1 ++ ":" ++ entry.2)
    ++ "\x7d"

mutual

/-- The canonical text of a value. -/
def canonical : Json → String
  | .null => "null"
  | .boolean value => if value then "true" else "false"
  | .integer value => canonicalNumberLayout.render (Binary64.ofInt value)
  | .real value => canonicalNumberLayout.render value
  | .text value => stringText value
  | .array items => "[" ++ ",".intercalate (canonicalItems items) ++ "]"
  | .object fields => canonicalObject (canonicalFields fields)

/-- The canonical texts of all items. -/
def canonicalItems : List Json → List String
  | [] => []
  | item :: rest => canonical item :: canonicalItems rest

/-- The canonical texts of all values beside their keys. -/
def canonicalFields : List (String × Json) → List (String × String)
  | [] => []
  | (key, value) :: rest => (key, canonical value) :: canonicalFields rest

end

end Strata.Json
