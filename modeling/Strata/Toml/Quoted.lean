import Strata.Text.Digits
import Strata.Toml.Lexical

/-!
# Quoted strings

TOML has four kinds of strings: between double quotes, where a backslash starts
an escape, or between single quotes, where it does not; and each on one line
or, between three quotes, over several. A string over several lines may end in
up to two quotes of its own before the three that close it, and a line break
right after the three that open it does not count. A backslash at the end of a
line joins it to the next character that is neither blank nor line break.

All four are read by one walk over the characters. Its mode says what the next
character has to be: content, the rest of an escape, or a part of a line join.
-/

namespace Strata.Toml

/-- How a string is written. -/
structure QuoteStyle where
  quote : Char
  /-- Whether a backslash starts an escape. -/
  escapes : Bool
  /-- Whether the string may go over several lines. -/
  multiline : Bool

namespace QuoteStyle

/-- The quotes that the string still contains and what is left behind it, if
its closing quotes are at the front. -/
def closing? (style : QuoteStyle) : List Char → Option (List Char × List Char)
  | cs =>
    if style.multiline then
      let run := cs.takeWhile fun c => c = style.quote
      if run.length < 3 then none
      else
        let own := min (run.length - 3) 2
        some (run.take own, cs.drop (own + 3))
    else
      match cs with
      | c :: rest => if c = style.quote then some ([], rest) else none
      | [] => none

end QuoteStyle

/-- What the next character of a string belongs to. -/
inductive StringMode
  /-- Content; while a line is being joined to what follows, blanks and line breaks are left out. -/
  | content (joining : Bool)
  /-- The character that a backslash stands before. -/
  | escape
  /-- Blanks between a backslash and the end of its line. -/
  | join
  /-- Hexadecimal digits of a code point: how many are missing, and the value of those read. -/
  | code (missing : Nat) (value : Nat)

/-- The character that an escape of one letter denotes. -/
def escapeOf? : Char → Option Char
  | 'b' => some '\x08'
  | 't' => some '\t'
  | 'n' => some '\n'
  | 'f' => some '\x0c'
  | 'r' => some '\r'
  | '"' => some '"'
  | '\\' => some '\\'
  | _ => none

/-- The rest of a string, given the characters before it, last one first. -/
def stringBody (style : QuoteStyle) : StringMode → List Char → Reader String
  | _, _, [] => none
  | .content joining, before, c :: rest =>
    match style.closing? (c :: rest) with
    | some (own, behind) => some (String.ofList (before.reverse ++ own), behind)
    | none =>
      if style.escapes && c = '\\' then stringBody style .escape before rest
      else if style.multiline && c = '\n' then
        stringBody style (.content joining) (if joining then before else c :: before) rest
      else if style.multiline && c = '\r' && rest.head? = some '\n' then
        stringBody style (.content joining) before rest
      else if joining && isBlank c then stringBody style (.content true) before rest
      else if isPrintable c then stringBody style (.content false) (c :: before) rest
      else none
  | .escape, before, c :: rest =>
    match escapeOf? c with
    | some denoted => stringBody style (.content false) (denoted :: before) rest
    | none =>
      if c = 'u' then stringBody style (.code 4 0) before rest
      else if c = 'U' then stringBody style (.code 8 0) before rest
      else if style.multiline && c = '\n' then stringBody style (.content true) before rest
      else if style.multiline && c = '\r' && rest.head? = some '\n' then
        stringBody style .escape before rest
      else if style.multiline && isBlank c then stringBody style .join before rest
      else none
  | .join, before, c :: rest =>
    if c = '\n' then stringBody style (.content true) before rest
    else if c = '\r' && rest.head? = some '\n' then stringBody style .join before rest
    else if isBlank c then stringBody style .join before rest
    else none
  | .code missing value, before, c :: rest =>
    match Text.hexValue? c with
    | none => none
    | some digit =>
      let value := 16 * value + digit
      if 1 < missing then stringBody style (.code (missing - 1) value) before rest
      else if value.isValidChar then
        stringBody style (.content false) (Char.ofNat value :: before) rest
      else none

/-- A string between single or double quotes on one line, its opening quote read. -/
def lineString (quote : Char) : Reader String :=
  stringBody ⟨quote, quote = '"', false⟩ (.content false) []

/-- A string between three quotes, its opening quotes read. -/
def blockString (quote : Char) : Reader String := do
  lineBreak <|> pure ()
  stringBody ⟨quote, quote = '"', true⟩ (.content false) []

/-- A string of any kind, its first quote read. -/
def quotedString (quote : Char) : Reader String
  | first :: second :: rest =>
    if first = quote && second = quote then blockString quote rest
    else lineString quote (first :: second :: rest)
  | cs => lineString quote cs

end Strata.Toml
