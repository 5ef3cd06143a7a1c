import Activation.Decimal
import Activation.Toml.Text

namespace Activation.Toml

structure Date where
  year : Nat
  month : Nat
  day : Nat
deriving DecidableEq

-- Seconds reach 60, for leap seconds.
structure Time where
  hour : Nat
  minute : Nat
  second : Nat
  nanosecond : Nat
deriving DecidableEq

inductive Offset where
  | utc
  | minutes (value : Int)
deriving DecidableEq

inductive Moment where
  | date (date : Date)
  | time (time : Time)
  | dateTime (date : Date) (time : Time) (offset : Option Offset)
deriving DecidableEq

def isLeapYear (year : Nat) : Bool :=
  year % 4 = 0 && (year % 100 ≠ 0 || year % 400 = 0)

def daysInMonth (year month : Nat) : Nat :=
  if month = 2 then (if isLeapYear year then 29 else 28)
  else if month = 4 ∨ month = 6 ∨ month = 9 ∨ month = 11 then 30
  else 31

def twoDigits : List Char → Option (Nat × List Char)
  | a :: b :: rest => if isDigit a && isDigit b then some (numeral 10 [a, b], rest) else none
  | _ => none

def twoDigitsWithin (what : String) (low high : Nat) : Step Nat := fun chars =>
  match twoDigits chars with
  | some (value, rest) =>
    if low ≤ value && value ≤ high then .ok (value, rest) else .error (.outOfRange what)
  | none => wanted what chars

def expect (c : Char) : List Char → Except Fault (List Char)
  | first :: rest => if first = c then .ok rest else wanted (toString c) (first :: rest)
  | [] => wanted (toString c) []

def monthDay (year : Nat) : Step Date := fun chars => do
  let (month, rest) ← twoDigitsWithin "month" 1 12 chars
  let rest ← expect '-' rest
  let (day, rest) ← twoDigitsWithin "day" 1 (daysInMonth year month) rest
  return (⟨year, month, day⟩, rest)

-- The fraction of a second in nanoseconds; of more than nine digits the rest is cut.
def fraction : Step Nat
  | '.' :: rest =>
    let digits := rest.takeWhile isDigit
    if digits.isEmpty then wanted "digit" rest
    else
      let kept := digits.take 9
      .ok (numeral 10 kept * Nat.pow 10 (9 - kept.length), rest.dropWhile isDigit)
  | rest => .ok (0, rest)

def clock : Step Time := fun chars => do
  let (hour, rest) ← twoDigitsWithin "hour" 0 23 chars
  let rest ← expect ':' rest
  let (minute, rest) ← twoDigitsWithin "minute" 0 59 rest
  let rest ← expect ':' rest
  let (second, rest) ← twoDigitsWithin "second" 0 60 rest
  let (nanosecond, rest) ← fraction rest
  return (⟨hour, minute, second, nanosecond⟩, rest)

def signedOffset (sign : Int) : Step Offset := fun chars => do
  let (hours, rest) ← twoDigitsWithin "hour" 0 23 chars
  let rest ← expect ':' rest
  let (minutes, rest) ← twoDigitsWithin "minute" 0 59 rest
  return (.minutes (sign * (60 * hours + minutes : Nat)), rest)

def offset? : Step (Option Offset)
  | 'Z' :: rest => .ok (some .utc, rest)
  | 'z' :: rest => .ok (some .utc, rest)
  | '+' :: rest => (signedOffset 1 rest).map fun (offset, rest) => (some offset, rest)
  | '-' :: rest => (signedOffset (-1) rest).map fun (offset, rest) => (some offset, rest)
  | rest => .ok (none, rest)

def startsClock (chars : List Char) : Bool :=
  match twoDigits chars with
  | some (_, ':' :: _) => true
  | _ => false

def dateThenTime (date : Date) : Step Moment := fun chars => do
  let (time, rest) ← clock chars
  let (offset, rest) ← offset? rest
  return (.dateTime date time offset, rest)

-- A time may follow a date after the letter T or one space. A space that no time follows is the
-- end of the date.
def afterDate (date : Date) : Step Moment
  | 'T' :: rest => dateThenTime date rest
  | 't' :: rest => dateThenTime date rest
  | ' ' :: rest =>
    if startsClock rest then dateThenTime date rest else .ok (.date date, ' ' :: rest)
  | rest => .ok (.date date, rest)

-- A date or time, where one starts: at four digits and a hyphen, or at two digits and a colon.
def moment? (chars : List Char) : Option (Except Fault (Moment × List Char)) :=
  match chars with
  | a :: b :: c :: d :: '-' :: rest =>
    if [a, b, c, d].all isDigit then
      some do
        let (date, rest) ← monthDay (numeral 10 [a, b, c, d]) rest
        afterDate date rest
    else none
  | _ =>
    if startsClock chars then
      some ((clock chars).map fun (time, rest) => (.time time, rest))
    else none

def Moment.ofText (text : String) : Except Fault Moment :=
  match moment? text.toList with
  | some found => do
    let (moment, rest) ← found
    if rest.isEmpty then return moment else wanted "end of text" rest
  | none => wanted "date or time" text.toList

def padded (width n : Nat) : String :=
  let digits := Nat.toDigits 10 n
  String.ofList (List.replicate (width - digits.length) '0' ++ digits)

def Date.text (date : Date) : String :=
  padded 4 date.year ++ "-" ++ padded 2 date.month ++ "-" ++ padded 2 date.day

-- A fraction of zero is not written, and no fraction ends in zero.
def Time.text (time : Time) : String :=
  let clock := padded 2 time.hour ++ ":" ++ padded 2 time.minute ++ ":" ++ padded 2 time.second
  if time.nanosecond = 0 then clock
  else
    let digits := (padded 9 time.nanosecond).toList
    clock ++ "." ++ String.ofList (digits.reverse.dropWhile (· = '0')).reverse

-- An offset of zero minutes is positive.
def Offset.text : Offset → String
  | .utc => "Z"
  | .minutes value =>
    let sign := if value < 0 then "-" else "+"
    sign ++ padded 2 (value.natAbs / 60) ++ ":" ++ padded 2 (value.natAbs % 60)

def Moment.text : Moment → String
  | .date day => day.text
  | .time clock => clock.text
  | .dateTime day clock offset =>
    day.text ++ "T" ++ clock.text ++ (offset.map Offset.text).getD ""

-- How a table came to be, which decides what may still be added to it.
inductive TableForm where
  -- Written in braces: closed once it is read.
  | braces
  -- Made by a dotted key inside braces.
  | dottedInBraces
  -- Named by a header of its own.
  | header
  -- Made by the header of a table below it; a header of its own may follow.
  | implied
  -- Made by a dotted key.
  | dotted
deriving DecidableEq

inductive ArrayForm where
  | brackets
  | headers
deriving DecidableEq

inductive Value where
  | text (value : String)
  | integer (value : Int)
  | float (value : Decimal.Binary)
  | boolean (value : Bool)
  | moment (value : Moment)
  | array (form : ArrayForm) (items : List Value)
  | table (form : TableForm) (entries : List (String × Value))

abbrev Entries : Type := List (String × Value)

def Entries.replace (key : String) (value : Value) : Entries → Entries
  | [] => []
  | entry :: rest =>
    if entry.1 = key then (key, value) :: rest else entry :: Entries.replace key value rest

def Entries.remove (key : String) (entries : Entries) : Entries :=
  entries.filter fun entry => decide (entry.1 ≠ key)

def Value.scalarText : Value → Option String
  | .text value => some value
  | .integer value => some (toString value)
  | .float value => some value.text
  | .boolean value => some (if value then "true" else "false")
  | .moment value => some value.text
  | .array _ _ => none
  | .table _ _ => none

end Activation.Toml
