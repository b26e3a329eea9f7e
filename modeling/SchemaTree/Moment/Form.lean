import SchemaTree.Text.DecimalDigit

/-!
# The written form of a moment

A date and a time of day joined by `T`, such as `2024-02-29T12:30:05.25+05:30`. Seconds, their
fraction and the offset may be left out, and the offset may be `Z` or lack its colon. This module
only takes such a text apart: the digits may be decimal digits of any script, no number is checked
for its range, and one line feed may follow. What a moment means is decided when it is read.
-/

namespace SchemaTree

/-- The offset from universal time, as written. -/
inductive ZoneForm where
  | utc
  | offset (negative : Bool) (hour minute : List Char)
deriving DecidableEq, Repr

/-- The parts of a written moment, each a list of digits. -/
structure MomentForm where
  year : List Char
  month : List Char
  day : List Char
  hour : List Char
  minute : List Char
  second : Option (List Char)
  fraction : Option (List Char)
  zone : Option ZoneForm
  /-- Whether a line feed follows. -/
  lineFeed : Bool
deriving DecidableEq, Repr

namespace MomentForm

/-- Takes a number of digits off a text. -/
def splitDigits : Nat → List Char → Option (List Char × List Char)
  | 0, text => some ([], text)
  | _ + 1, [] => none
  | n + 1, c :: rest =>
    if Text.isDecimalDigit c then (splitDigits n rest).map fun (digits, rest) => (c :: digits, rest)
    else none

/-- Takes one character off a text. -/
def splitMark (mark : Char) : List Char → Option (List Char)
  | [] => none
  | c :: rest => if c = mark then some rest else none

/-- Takes a fraction of a second off a text, if it starts with one. -/
def splitFraction : List Char → Option (Option (List Char) × List Char)
  | '.' :: rest =>
    let (digits, rest) := rest.span Text.isDecimalDigit
    if digits.isEmpty then none else some (some digits, rest)
  | text => some (none, text)

/-- Takes seconds off a text, if it starts with some. -/
def splitSeconds : List Char → Option (Option (List Char) × Option (List Char) × List Char)
  | ':' :: rest => do
    let (second, rest) ← splitDigits 2 rest
    let (fraction, rest) ← splitFraction rest
    return (some second, fraction, rest)
  | text => some (none, none, text)

/-- Takes hours and minutes off a text, with or without a colon between them. -/
def splitOffset (negative : Bool) (text : List Char) : Option (ZoneForm × List Char) := do
  let (hour, rest) ← splitDigits 2 text
  let (minute, rest) ← splitDigits 2 ((splitMark ':' rest).getD rest)
  return (.offset negative hour minute, rest)

/-- Takes an offset off a text, if it starts with one. -/
def splitZone : List Char → Option (Option ZoneForm × List Char)
  | 'Z' :: rest => some (some .utc, rest)
  | '+' :: rest => (splitOffset false rest).map fun (zone, rest) => (some zone, rest)
  | '-' :: rest => (splitOffset true rest).map fun (zone, rest) => (some zone, rest)
  | text => some (none, text)

/-- Whether a line feed is left; nothing else may be. -/
def splitEnd : List Char → Option Bool
  | [] => some false
  | ['\n'] => some true
  | _ => none

/-- Takes a text apart. -/
def ofText? (text : List Char) : Option MomentForm := do
  let (year, rest) ← splitDigits 4 text
  let (month, rest) ← splitDigits 2 (← splitMark '-' rest)
  let (day, rest) ← splitDigits 2 (← splitMark '-' rest)
  let (hour, rest) ← splitDigits 2 (← splitMark 'T' rest)
  let (minute, rest) ← splitDigits 2 (← splitMark ':' rest)
  let (second, fraction, rest) ← splitSeconds rest
  let (zone, rest) ← splitZone rest
  let lineFeed ← splitEnd rest
  return { year, month, day, hour, minute, second, fraction, zone, lineFeed }

end MomentForm

end SchemaTree
