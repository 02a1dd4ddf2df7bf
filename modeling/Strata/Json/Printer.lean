import Strata.Json
import Strata.Binary64.Layout

/-!
# JSON text

A value as JSON text, on one line without blanks or indented by two spaces.
Fields are written in the order in which they are listed. Only the quote, the
backslash and the control characters below the space are escaped.
-/

namespace Strata.Json

/-- Numbers are positional from `0.00001` up to sixteen digits before the point
and keep a fraction digit; others have a signed exponent. Of two nearest decimals
the even one is written. -/
def numberLayout : Binary64.Layout where
  positional point := -4 ≤ point && point ≤ 16
  keepsFraction := true
  signsZero := true
  tie := .toEven

/-- The text of a number; there is none for infinities and NaNs. -/
def realText (x : Binary64) : String :=
  if x.isFinite then numberLayout.render x else "null"

/-- The escape for a character, if it has one. -/
def escape? (c : Char) : Option (List Char) :=
  if c = '"' then some ['\\', '"']
  else if c = '\\' then some ['\\', '\\']
  else if c = '\n' then some ['\\', 'n']
  else if c = '\r' then some ['\\', 'r']
  else if c = '\t' then some ['\\', 't']
  else if c = '\x08' then some ['\\', 'b']
  else if c = '\x0c' then some ['\\', 'f']
  else if c.toNat < 0x10 then some (['\\', 'u', '0', '0', '0'] ++ Nat.toDigits 16 c.toNat)
  else if c.toNat < 0x20 then some (['\\', 'u', '0', '0'] ++ Nat.toDigits 16 c.toNat)
  else none

/-- A text between quotes. -/
def stringText (value : String) : String :=
  String.ofList ('"' :: value.toList.flatMap (fun c => (escape? c).getD [c]) ++ ['"'])

/-- The text of an integer. -/
def integerText (n : Int) : String :=
  (if n < 0 then "-" else "") ++ Binary64.digitText n.natAbs

mutual

/-- A value on one line, without blanks. -/
def compact : Json → String
  | .null => "null"
  | .boolean value => if value then "true" else "false"
  | .integer value => integerText value
  | .real value => realText value
  | .text value => stringText value
  | .array items => "[" ++ compactItems items ++ "]"
  | .object fields => "\x7b" ++ compactFields fields ++ "\x7d"

/-- Items between commas. -/
def compactItems : List Json → String
  | [] => ""
  | [item] => compact item
  | item :: rest => compact item ++ "," ++ compactItems rest

/-- Fields between commas. -/
def compactFields : List (String × Json) → String
  | [] => ""
  | [(key, value)] => stringText key ++ ":" ++ compact value
  | (key, value) :: rest => stringText key ++ ":" ++ compact value ++ "," ++ compactFields rest

end

/-- A new line at a nesting depth. -/
def newline (depth : Nat) : String :=
  "\n" ++ String.ofList (List.replicate (2 * depth) ' ')

mutual

/-- A value on several lines, the first of which stands at `depth`; a container
without content stays on one line. -/
def prettyAt (depth : Nat) : Json → String
  | .array [] => "[]"
  | .object [] => "\x7b\x7d"
  | .array items => "[" ++ prettyItems (depth + 1) items ++ newline depth ++ "]"
  | .object fields => "\x7b" ++ prettyFields (depth + 1) fields ++ newline depth ++ "\x7d"
  | .null => "null"
  | .boolean value => if value then "true" else "false"
  | .integer value => integerText value
  | .real value => realText value
  | .text value => stringText value

/-- Items, each on lines of its own. -/
def prettyItems (depth : Nat) : List Json → String
  | [] => ""
  | [item] => newline depth ++ prettyAt depth item
  | item :: rest => newline depth ++ prettyAt depth item ++ "," ++ prettyItems depth rest

/-- Fields, each on lines of its own. -/
def prettyFields (depth : Nat) : List (String × Json) → String
  | [] => ""
  | [(key, value)] => newline depth ++ stringText key ++ ": " ++ prettyAt depth value
  | (key, value) :: rest =>
    newline depth ++ stringText key ++ ": " ++ prettyAt depth value ++ ","
      ++ prettyFields depth rest

end

/-- A value on several lines, indented by two spaces for each level. -/
def pretty (value : Json) : String :=
  prettyAt 0 value

end Strata.Json
