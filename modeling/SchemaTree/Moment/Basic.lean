import SchemaTree.Decimal.Layout
import SchemaTree.Moment.Form

/-!
# Moments

A moment is a date of the Gregorian calendar, a time of day and possibly an offset from universal
time. `Moment.ofForm` reads one from its written form. The date is read first and blamed first: its
digits, which have to be ASCII, from left to right, then the range of the month, then that of the
day. Whatever is wrong with the rest is blamed as a whole, and a year zero last.

`Moment.text` writes a moment with seconds, with six digits of fraction unless it is zero, and with
`Z` for no offset from universal time.
-/

namespace SchemaTree

/-! ## The calendar -/

/-- Whether a year has a 29th of February. -/
def isLeapYear (year : Nat) : Bool := year % 4 = 0 ∧ year % 100 ≠ 0 ∨ year % 400 = 0

/-- The number of days of a month. -/
def daysInMonth (year month : Nat) : Nat :=
  if month = 2 then if isLeapYear year then 29 else 28
  else if month = 4 ∨ month = 6 ∨ month = 9 ∨ month = 11 then 30
  else 31

/-! ## Moments -/

/-- A moment. Its fraction is in millionths of a second and its offset in minutes. -/
structure Moment where
  year : Nat
  month : Nat
  day : Nat
  hour : Nat
  minute : Nat
  second : Nat
  fraction : Nat
  offset : Option Int
deriving DecidableEq, Repr

/-- Why a written moment is none. -/
inductive MomentFault where
  /-- A part of the date has a digit that is not ASCII. -/
  | badCharacter (part : String)
  | badMonth
  | badDay
  /-- Something is wrong behind the date. -/
  | badRest
  | yearZero
deriving DecidableEq, Repr

namespace Moment

/-- The number of a list of ASCII digits. -/
def number? (digits : List Char) : Option Nat :=
  if digits.all Char.isDigit then some (Nat.ofDigitChars 10 digits 0) else none

/-- The number of a list of ASCII digits, if it is below a bound. -/
def numberBelow? (bound : Nat) (digits : List Char) : Option Nat :=
  (number? digits).filter (· < bound)

/-- The millionths that a fraction has; further digits are dropped. -/
def millionths? (digits : List Char) : Option Nat :=
  if digits.all Char.isDigit then number? ((digits ++ List.replicate 6 '0').take 6) else none

/-- The minutes of an offset of less than a day. -/
def offset? : ZoneForm → Option Int
  | .utc => some 0
  | .offset negative hour minute => do
    let minutes : Nat := (← numberBelow? 24 hour) * 60 + (← numberBelow? 60 minute)
    return if negative then -(minutes : Int) else minutes

/-- An optional part; `absent` where it is not written. -/
def part? (read : α → Option β) (absent : β) : Option α → Option β
  | none => some absent
  | some a => read a

/-- The moment on a date that a form gives, unless something is wrong behind its date. -/
def onDate? (form : MomentForm) (year month day : Nat) : Option Moment := do
  let hour ← numberBelow? 24 form.hour
  let minute ← numberBelow? 60 form.minute
  let second ← part? (numberBelow? 60) 0 form.second
  let fraction ← part? millionths? 0 form.fraction
  let offset ← part? (fun zone => (offset? zone).map some) none form.zone
  if form.lineFeed then none
  else return { year, month, day, hour, minute, second, fraction, offset }

/-- Reads a part of a date. -/
def datePart (part : String) (digits : List Char) : Except MomentFault Nat :=
  match number? digits with
  | some n => .ok n
  | none => .error (.badCharacter part)

/-- Reads a written moment. -/
def ofForm (form : MomentForm) : Except MomentFault Moment := do
  let year ← datePart "year" form.year
  let month ← datePart "month" form.month
  let day ← datePart "day" form.day
  if month < 1 ∨ 12 < month then throw .badMonth
  if day < 1 ∨ daysInMonth year month < day then throw .badDay
  match onDate? form year month day with
  | none => throw .badRest
  | some moment => if year = 0 then throw .yearZero else return moment

/-- The text of an offset. -/
def offsetChars (minutes : Int) : List Char :=
  if minutes = 0 then ['Z']
  else
    (if minutes < 0 then '-' else '+') ::
      (Decimal.padded 2 (minutes.natAbs / 60) ++ ':' :: Decimal.padded 2 (minutes.natAbs % 60))

/-- The text of a moment. -/
def chars (m : Moment) : List Char :=
  Decimal.padded 4 m.year ++ '-' :: Decimal.padded 2 m.month ++ '-' :: Decimal.padded 2 m.day ++
    'T' :: Decimal.padded 2 m.hour ++ ':' :: Decimal.padded 2 m.minute ++
    ':' :: Decimal.padded 2 m.second ++
    (if m.fraction = 0 then [] else '.' :: Decimal.padded 6 m.fraction) ++
    match m.offset with
    | none => []
    | some minutes => offsetChars minutes

/-- The text of a moment as a string. -/
def text (m : Moment) : String := String.ofList m.chars

end Moment

end SchemaTree
