import Strata.Text.Digits
import Strata.Toml.Lexical

/-!
# Dates and times

A date, a time of day, or both together, and then possibly with the offset of
the time from universal time. Dates are days of the Gregorian calendar, years
have four digits, and seconds count up to 60, for leap seconds. A fraction of a
second may have any number of digits, of which nine are kept.

`text` writes the one form that is used in results: a `T` between date and time,
no zeros at the end of a fraction, `Z` only where it was written.
-/

namespace Strata.Toml

open Reader

structure Date where
  year : Nat
  month : Nat
  day : Nat
  deriving DecidableEq, Repr

structure Time where
  hour : Nat
  minute : Nat
  second : Nat
  nanosecond : Nat
  deriving DecidableEq, Repr

/-- How far a time is from universal time. -/
inductive Offset
  /-- It is universal time. -/
  | universal
  /-- It is ahead by so many minutes, or behind if they are negative. -/
  | minutes (ahead : Int)
  deriving DecidableEq, Repr

inductive Datetime
  | dateOnly (date : Date)
  | timeOnly (time : Time)
  | both (date : Date) (time : Time) (offset : Option Offset)
  deriving DecidableEq, Repr

/-! ## The calendar -/

def isLeapYear (year : Nat) : Bool :=
  year % 4 = 0 && (year % 100 ≠ 0 || year % 400 = 0)

/-- The number of days in a month. -/
def daysIn (year month : Nat) : Nat :=
  if month = 2 then (if isLeapYear year then 29 else 28)
  else if [4, 6, 9, 11].contains month then 30
  else 31

namespace Date

/-- Whether there is such a day. -/
def isValid (date : Date) : Bool :=
  1 ≤ date.month && date.month ≤ 12 && 1 ≤ date.day && date.day ≤ daysIn date.year date.month

end Date

namespace Time

/-- Whether a day has such a time. -/
def isValid (time : Time) : Bool :=
  time.hour ≤ 23 && time.minute ≤ 59 && time.second ≤ 60

end Time

/-! ## Reading -/

namespace Datetime

/-- A number of exactly so many digits. -/
def digits : Nat → Reader (List Char)
  | 0 => pure []
  | count + 1 => fun
    | c :: rest =>
      if c.isDigit then (digits count rest).map fun (digits, rest) => (c :: digits, rest)
      else none
    | [] => none

def numeral (width : Nat) : Reader Nat :=
  Text.digitsValue <$> digits width

def readDate : Reader Date := do
  let year ← numeral 4
  expect '-'
  let month ← numeral 2
  expect '-'
  let day ← numeral 2
  let date : Date := ⟨year, month, day⟩
  if date.isValid then pure date else failure

/-- The nanoseconds of a fraction of a second. -/
def nanoseconds (digits : List Char) : Nat :=
  let kept := digits.take 9
  Text.digitsValue kept * Nat.pow 10 (9 - kept.length)

/-- The fraction of a second in nanoseconds. -/
def readFraction : Reader Nat := do
  if ← next '.' then
    let digits ← takeWhile Char.isDigit
    if digits.isEmpty then failure else pure (nanoseconds digits)
  else pure 0

def readTime : Reader Time := do
  let hour ← numeral 2
  expect ':'
  let minute ← numeral 2
  expect ':'
  let second ← numeral 2
  let nanosecond ← readFraction
  let time : Time := ⟨hour, minute, second, nanosecond⟩
  if time.isValid then pure time else failure

def readOffset : Reader Offset
  | 'Z' :: rest => some (.universal, rest)
  | 'z' :: rest => some (.universal, rest)
  | c :: rest =>
    if c = '+' || c = '-' then do
      let (hours, rest) ← numeral 2 rest
      let (_, rest) ← expect ':' rest
      let (minutes, rest) ← numeral 2 rest
      let ahead : Int := 60 * hours + minutes
      if hours ≤ 23 && minutes ≤ 59 then
        some (.minutes (if c = '-' then -ahead else ahead), rest)
      else none
    else none
  | [] => none

/-- A time behind a date, with what separates them. -/
def readTimeBehindDate : Reader (Time × Option Offset)
  | c :: rest =>
    if c = 'T' || c = 't' || c = ' ' then do
      let (time, rest) ← readTime rest
      let (offset, rest) ← optional readOffset rest
      some ((time, offset), rest)
    else none
  | [] => none

def read : Reader Datetime :=
  (do
    let date ← readDate
    match ← optional readTimeBehindDate with
    | some (time, offset) => pure (.both date time offset)
    | none => pure (.dateOnly date))
  <|> .timeOnly <$> readTime

/-! ## Writing -/

def dateText (date : Date) : List Char :=
  Text.padded 4 date.year ++ ['-'] ++ Text.padded 2 date.month ++ ['-'] ++ Text.padded 2 date.day

/-- A fraction of a second, without zeros at its end. -/
def fractionText (nanosecond : Nat) : List Char :=
  if nanosecond = 0 then []
  else '.' :: ((Text.padded 9 nanosecond).reverse.dropWhile fun c => c = '0').reverse

def timeText (time : Time) : List Char :=
  Text.padded 2 time.hour ++ [':'] ++ Text.padded 2 time.minute ++ [':']
    ++ Text.padded 2 time.second ++ fractionText time.nanosecond

def offsetText : Offset → List Char
  | .universal => ['Z']
  | .minutes ahead =>
    (if ahead < 0 then '-' else '+') :: Text.padded 2 (ahead.natAbs / 60)
      ++ [':'] ++ Text.padded 2 (ahead.natAbs % 60)

def text : Datetime → String
  | .dateOnly date => String.ofList (dateText date)
  | .timeOnly time => String.ofList (timeText time)
  | .both date time offset =>
    String.ofList (dateText date ++ 'T' :: timeText time ++ (offset.toList.flatMap offsetText))

/-- The date or time that a whole text spells. -/
def ofText? (text : String) : Option Datetime :=
  match read text.toList with
  | some (datetime, []) => some datetime
  | _ => none

end Datetime

end Strata.Toml
