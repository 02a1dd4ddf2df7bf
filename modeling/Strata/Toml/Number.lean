import Strata.Binary64.Rounding
import Strata.Text.Digits
import Strata.Toml.Lexical

/-!
# Numbers

Integers are decimal, with an optional sign and no zeros in front, or without a
sign in base 16, 8 or 2; they are in the range of signed 64-bit words. A decimal
with a fraction or an exponent is the nearest binary64 value; one that is too
large is refused unless it is negative. Underscores may stand between digits,
one at a time.
-/

namespace Strata.Toml

open Reader

/-- A number as it is written: an integer or a binary64 value. -/
inductive Number
  | integer (value : Int)
  | float (value : Binary64)
  deriving DecidableEq, Repr

namespace Number

/-- More digits, an underscore allowed before each. -/
def moreDigits (isDigit : Char → Bool) : Reader (List Char)
  | '_' :: c :: rest =>
    if isDigit c then (moreDigits isDigit rest).map fun (digits, rest) => (c :: digits, rest)
    else none
  | c :: rest =>
    if isDigit c then (moreDigits isDigit rest).map fun (digits, rest) => (c :: digits, rest)
    else some ([], c :: rest)
  | [] => some ([], [])

/-- At least one digit, and underscores between digits. -/
def digits (isDigit : Char → Bool) : Reader (List Char)
  | c :: rest =>
    if isDigit c then (moreDigits isDigit rest).map fun (digits, rest) => (c :: digits, rest)
    else none
  | [] => none

/-- The number that digits of a base denote. -/
def valueIn (base : Nat) (digits : List Char) : Nat :=
  digits.foldl (fun n c => base * n + (Text.hexValue? c).getD 0) 0

/-- Whether an integer is in the range of signed 64-bit words. -/
def inRange (n : Int) : Bool :=
  -(1 <<< 63 : Nat) ≤ n && n < (1 <<< 63 : Nat)

/-- An integer in range. -/
def ofInt? (n : Int) : Option Number :=
  if inRange n then some (.integer n) else none

/-- An integer in a base other than ten, what announces the base read. -/
def inBase (base : Nat) : Reader Number := do
  let digits ← digits fun c => (Text.hexValue? c).any (· < base)
  ofInt? (valueIn base digits)

/-- A sign, if there is one, and whether it is a minus. -/
def sign : Reader Bool
  | '-' :: rest => some (true, rest)
  | '+' :: rest => some (false, rest)
  | cs => some (false, cs)

/-- The digits behind a point, if there is one. -/
def fraction? : Reader (Option (List Char)) := do
  if ← next '.' then some <$> digits Char.isDigit else pure none

/-- The exponent, if there is one. -/
def exponent? : Reader (Option Int)
  | c :: rest =>
    if c = 'e' || c = 'E' then do
      let (negative, rest) ← sign rest
      let (digits, rest) ← digits Char.isDigit rest
      let size : Int := Text.digitsValue digits
      some (some (if negative then -size else size), rest)
    else some (none, c :: rest)
  | [] => some (none, [])

/-- A decimal number without its sign. -/
def decimal (negative : Bool) : Reader Number := do
  let whole ← digits Char.isDigit
  if 1 < whole.length && whole.head? = some '0' then failure
  let fraction ← fraction?
  let exponent ← exponent?
  match fraction, exponent with
  | none, none =>
    let size : Int := Text.digitsValue whole
    ofInt? (if negative then -size else size)
  | fraction, exponent =>
    let behind := fraction.getD []
    let value := Binary64.ofDecimal negative (Text.digitsValue (whole ++ behind))
      (exponent.getD 0 - (behind.length : Int))
    if value = .infinity then failure
    pure (.float value)

/-- A value of the format that is no finite number, with the given sign. -/
def special (negative : Bool) (magnitude : Nat) : Number :=
  .float (.ofMagnitude negative magnitude)

end Number

/-- A number. -/
def number : Reader Number
  | '0' :: 'x' :: rest => Number.inBase 16 rest
  | '0' :: 'o' :: rest => Number.inBase 8 rest
  | '0' :: 'b' :: rest => Number.inBase 2 rest
  | cs => do
    let (negative, rest) ← Number.sign cs
    match rest with
    | 'i' :: 'n' :: 'f' :: rest =>
      some (Number.special negative Binary64.infinityMagnitude, rest)
    | 'n' :: 'a' :: 'n' :: rest => some (Number.special negative Binary64.nan.magnitude, rest)
    | rest => Number.decimal negative rest

end Strata.Toml
