/-!
# Blanks, comments and line ends

The smallest parts of TOML text. A reader takes something off the front of the
characters that are left and gives it together with what is left behind it, or
fails; readers in sequence are one `do` block.

Spaces and tabs are blanks. A line ends with a line feed, which a carriage
return may precede; a carriage return alone is nothing. A comment lasts to the
end of its line and holds no control character but tabs.
-/

namespace Strata.Toml

/-- Reads something off the front of a text. -/
abbrev Reader := StateT (List Char) Option

def isBlank (c : Char) : Bool :=
  c = ' ' || c = '\t'

/-- Whether a character may stand inside a comment or a string. -/
def isPrintable (c : Char) : Bool :=
  c = '\t' || (0x20 ≤ c.toNat && c ≠ '\x7f')

namespace Reader

/-- The given character. -/
def expect (expected : Char) : Reader Unit
  | c :: rest => if c = expected then some ((), rest) else none
  | [] => none

/-- Whether the given character is next; if so, it is read. -/
def next (expected : Char) : Reader Bool
  | c :: rest => if c = expected then some (true, rest) else some (false, c :: rest)
  | [] => some (false, [])

/-- The characters of a word. -/
def word (characters : List Char) : Reader Unit :=
  characters.forM expect

/-- The character at the front, left where it is. -/
def peek : Reader (Option Char)
  | cs => some (cs.head?, cs)

/-- All characters at the front that pass a test. -/
def takeWhile (test : Char → Bool) : Reader (List Char)
  | cs => some (cs.takeWhile test, cs.dropWhile test)

end Reader

open Reader

/-- Blanks, if there are any. -/
def blanks : Reader Unit
  | cs => some ((), cs.dropWhile isBlank)

/-- A line break. -/
def lineBreak : Reader Unit
  | '\n' :: rest => some ((), rest)
  | '\r' :: '\n' :: rest => some ((), rest)
  | _ => none

/-- The end of the whole text. -/
def endOfText : Reader Unit
  | [] => some ((), [])
  | _ => none

/-- The end of a line: blanks, a comment, and the line break unless the text ends. -/
def lineEnd : Reader Unit := do
  blanks
  if ← next '#' then
    let _ ← takeWhile isPrintable
  lineBreak <|> endOfText

/-- What may stand around the items of an array: blanks, line breaks and
comments. `inComment` says whether the front is inside a comment. -/
def layout (inComment : Bool) : Reader Unit
  | [] => some ((), [])
  | '\n' :: rest => layout false rest
  | '\r' :: '\n' :: rest => layout false rest
  | c :: rest =>
    if inComment then
      if isPrintable c then layout true rest else none
    else if isBlank c then layout false rest
    else if c = '#' then layout true rest
    else some ((), c :: rest)

end Strata.Toml
