import Strata.Json
import Strata.Binary64.Rounding
import Strata.Text.Digits

/-!
# Reading JSON text

A reader for the JSON grammar. Each function takes the characters that are
left and gives what it read together with the characters behind it. The
recursion of values inside values is bounded by twice the number of characters,
which is more than any nesting can need.

An object is read into fields in key order; of two fields with one key the
later counts.
-/

namespace Strata.Json

/-- What is left without leading blanks. -/
def skipBlanks : List Char → List Char
  | c :: rest => if c = ' ' || c = '\n' || c = '\r' || c = '\t' then skipBlanks rest else c :: rest
  | [] => []

/-- The decimal digits at the front, and what follows them. -/
def spanDigits (cs : List Char) : List Char × List Char :=
  cs.span Char.isDigit

/-- The number that four hexadecimal digits denote. -/
def hexQuad? : List Char → Option (Nat × List Char)
  | a :: b :: c :: d :: rest => do
    let a ← Text.hexValue? a
    let b ← Text.hexValue? b
    let c ← Text.hexValue? c
    let d ← Text.hexValue? d
    pure (((a * 16 + b) * 16 + c) * 16 + d, rest)
  | _ => none

/-- The character that an escape denotes, given what follows the backslash. A
character beyond the first plane is written as two units. -/
def escaped? : List Char → Option (Char × List Char)
  | '"' :: rest => some ('"', rest)
  | '\\' :: rest => some ('\\', rest)
  | '/' :: rest => some ('/', rest)
  | 'b' :: rest => some ('\x08', rest)
  | 'f' :: rest => some ('\x0c', rest)
  | 'n' :: rest => some ('\n', rest)
  | 'r' :: rest => some ('\r', rest)
  | 't' :: rest => some ('\t', rest)
  | 'u' :: rest => do
    let (unit, rest) ← hexQuad? rest
    if 0xD800 ≤ unit && unit < 0xDC00 then
      match rest with
      | '\\' :: 'u' :: rest =>
        let (low, rest) ← hexQuad? rest
        if 0xDC00 ≤ low && low < 0xE000 then
          pure (Char.ofNat (0x10000 + (unit - 0xD800) * 0x400 + (low - 0xDC00)), rest)
        else none
      | _ => none
    else if 0xDC00 ≤ unit && unit < 0xE000 then none
    else pure (Char.ofNat unit, rest)
  | _ => none

/-- The text up to the closing quote. -/
def stringBody (fuel : Nat) (cs : List Char) (read : List Char) : Option (String × List Char) :=
  match fuel with
  | 0 => none
  | fuel + 1 =>
    match cs with
    | [] => none
    | '"' :: rest => some (String.ofList read.reverse, rest)
    | '\\' :: rest =>
      match escaped? rest with
      | none => none
      | some (c, rest) => stringBody fuel rest (c :: read)
    | c :: rest => if c.toNat < 0x20 then none else stringBody fuel rest (c :: read)

/-- The least and the greatest number that is kept as an integer. -/
def integerRange : Int × Int := (-(1 <<< 63 : Nat), (1 <<< 64 : Nat) - 1)

/-- The number with the given sign, integral digits, and fraction and exponent where written. -/
def ofNumeral (negative : Bool) (digits : List Char) (fraction : Option (List Char))
    (exponent : Option Int) : Option Json :=
  let whole := Text.digitsValue digits
  let signed : Int := if negative then -(whole : Int) else whole
  let integral := fraction.isNone && exponent.isNone && !(negative && whole = 0)
  if integral && integerRange.1 ≤ signed && signed ≤ integerRange.2 then some (.integer signed)
  else
    let behind := fraction.getD []
    let value := Binary64.ofDecimal negative (Text.digitsValue (digits ++ behind))
      (exponent.getD 0 - (behind.length : Int))
    if value.isFinite then some (.real value) else none

/-- The digits behind a point, if there is a point. -/
def fractionPart : List Char → Option (Option (List Char) × List Char)
  | '.' :: rest =>
    let (digits, rest) := spanDigits rest
    if digits.isEmpty then none else some (some digits, rest)
  | cs => some (none, cs)

/-- The exponent, if there is one. -/
def exponentPart : List Char → Option (Option Int × List Char)
  | c :: rest =>
    if c = 'e' || c = 'E' then
      let (negative, rest) := match rest with
        | '-' :: rest => (true, rest)
        | '+' :: rest => (false, rest)
        | rest => (false, rest)
      let (digits, rest) := spanDigits rest
      if digits.isEmpty then none
      else
        let size : Int := Text.digitsValue digits
        some (some (if negative then -size else size), rest)
    else some (none, c :: rest)
  | [] => some (none, [])

/-- A number at the front. -/
def number (cs : List Char) : Option (Json × List Char) := do
  let (negative, cs) := match cs with
    | '-' :: rest => (true, rest)
    | cs => (false, cs)
  let (digits, rest) := spanDigits cs
  if digits.isEmpty || (digits.length ≠ 1 && digits.head? = some '0') then none
  let (fraction, rest) ← fractionPart rest
  let (exponent, rest) ← exponentPart rest
  let value ← ofNumeral negative digits fraction exponent
  pure (value, rest)

mutual

/-- A value at the front, blanks before it allowed. -/
def value : Nat → List Char → Option (Json × List Char)
  | 0, _ => none
  | fuel + 1, cs =>
    match skipBlanks cs with
    | 'n' :: 'u' :: 'l' :: 'l' :: rest => some (.null, rest)
    | 't' :: 'r' :: 'u' :: 'e' :: rest => some (.boolean true, rest)
    | 'f' :: 'a' :: 'l' :: 's' :: 'e' :: rest => some (.boolean false, rest)
    | '"' :: rest => (stringBody (rest.length + 1) rest []).map fun (s, rest) => (.text s, rest)
    | '[' :: rest =>
      match skipBlanks rest with
      | ']' :: rest => some (.array [], rest)
      | rest => (items fuel rest).map fun (items, rest) => (.array items, rest)
    | '\x7b' :: rest =>
      match skipBlanks rest with
      | '\x7d' :: rest => some (.object [], rest)
      | rest => (members fuel rest).map fun (fields, rest) => (.object (Fields.ofList fields), rest)
    | rest => number rest

/-- Items up to the closing bracket; at least one. -/
def items : Nat → List Char → Option (List Json × List Char)
  | 0, _ => none
  | fuel + 1, cs =>
    match value fuel cs with
    | none => none
    | some (item, rest) =>
      match skipBlanks rest with
      | ']' :: rest => some ([item], rest)
      | ',' :: rest => (items fuel rest).map fun (more, rest) => (item :: more, rest)
      | _ => none

/-- Fields up to the closing brace; at least one. -/
def members : Nat → List Char → Option (List (String × Json) × List Char)
  | 0, _ => none
  | fuel + 1, cs =>
    match skipBlanks cs with
    | '"' :: rest =>
      match stringBody (rest.length + 1) rest [] with
      | none => none
      | some (key, rest) =>
        match skipBlanks rest with
        | ':' :: rest =>
          match value fuel rest with
          | none => none
          | some (value, rest) =>
            match skipBlanks rest with
            | '\x7d' :: rest => some ([(key, value)], rest)
            | ',' :: rest =>
              (members fuel rest).map fun (more, rest) => ((key, value) :: more, rest)
            | _ => none
        | _ => none
    | _ => none

end

/-- The value that a whole text denotes, if it is JSON. -/
def parse? (text : String) : Option Json :=
  let cs := text.toList
  match value (2 * cs.length + 2) cs with
  | some (value, rest) => if (skipBlanks rest).isEmpty then some value else none
  | none => none

end Strata.Json
