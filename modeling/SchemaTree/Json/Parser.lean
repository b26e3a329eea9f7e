import SchemaTree.Decimal.Nearest
import SchemaTree.Json.Basic

/-!
# Reading JSON text

The reader accepts the JSON grammar and the three words `NaN`, `Infinity` and `-Infinity`. A number
with a point or an exponent is binary64, any other number is whole and may have only so many digits.
The functions work on the rest of the text; a fault carries the rest at its place, from which
`PlacedFault` computes line, column and offset.

A string is a sequence of Unicode scalar values. An escape can also stand for a surrogate, and two
of them in a row for the character that they are the code units of; but there is no `String` with a
surrogate that has no partner. The reader stops there. What becomes of such a text is beyond this
library.

The recursion is bounded by a number that every call lowers. Of two nested calls at least one
consumes a character, so a bound of twice the length of the text is never reached.
-/

namespace SchemaTree.Json

/-- What is wrong with a text at some place. -/
inductive Fault where
  | expectingValue
  | expectingKey
  | expectingColon
  | expectingComma
  | unterminatedString
  | controlCharacter
  | badEscape
  | badUnicodeEscape
  | extraData
  | byteOrderMark
deriving DecidableEq, Repr

/-- The wording of a fault. -/
def Fault.message : Fault → String
  | .expectingValue => "Expecting value"
  | .expectingKey => "Expecting property name enclosed in double quotes"
  | .expectingColon => "Expecting ':' delimiter"
  | .expectingComma => "Expecting ',' delimiter"
  | .unterminatedString => "Unterminated string starting at"
  | .controlCharacter => "Invalid control character at"
  | .badEscape => "Invalid \\escape"
  | .badUnicodeEscape => "Invalid \\uXXXX escape"
  | .extraData => "Extra data"
  | .byteOrderMark => "Unexpected UTF-8 BOM (decode using utf-8-sig)"

/-- Why the reader cannot go on. -/
inductive Stuck where
  /-- A fault and the rest of the text from its place on. -/
  | faulty (fault : Fault) (rest : List Char)
  /-- A whole number with too many digits. -/
  | tooLong (digits : Nat)
  /-- A surrogate without a partner. -/
  | loneSurrogate

/-- The four characters that may stand between tokens. -/
def isBlank (c : Char) : Bool := c = ' ' || c = '\t' || c = '\n' || c = '\r'

/-- The text after leading blanks. -/
def skipBlanks (text : List Char) : List Char := text.dropWhile isBlank

/-! ## Strings -/

/-- The value of a hexadecimal digit. -/
def hexValue? (c : Char) : Option Nat :=
  if c.isDigit then some (c.toNat - '0'.toNat)
  else if 'a' ≤ c && c ≤ 'f' then some (c.toNat - 'a'.toNat + 10)
  else if 'A' ≤ c && c ≤ 'F' then some (c.toNat - 'A'.toNat + 10)
  else none

/-- The character that a one-letter escape stands for. -/
def simpleEscape? : Char → Option Char
  | '"' => some '"'
  | '\\' => some '\\'
  | '/' => some '/'
  | 'b' => some '\x08'
  | 'f' => some '\x0c'
  | 'n' => some '\n'
  | 'r' => some '\r'
  | 't' => some '\t'
  | _ => none

/-- Where the reader of a string stands. -/
inductive StringState where
  /-- Between characters. -/
  | plain
  /-- Behind a backslash; the text from the backslash on. -/
  | escape (place : List Char)
  /-- Within a code unit: the text from its `u` on, digits still due and the value so far. -/
  | unit (place : List Char) (due value : Nat)

/-- A code unit that begins a surrogate pair. -/
def isHighSurrogate (unit : Nat) : Bool := 0xd800 ≤ unit && unit < 0xdc00

/-- A code unit that ends a surrogate pair. -/
def isLowSurrogate (unit : Nat) : Bool := 0xdc00 ≤ unit && unit < 0xe000

/-- The characters read so far, latest first, and a high surrogate whose partner is still due. -/
structure StringBuffer where
  chars : List Char
  pending : Option Nat

/-- The characters read so far, if no partner is due. -/
def StringBuffer.settle (buffer : StringBuffer) : Except Stuck (List Char) :=
  if buffer.pending.isSome then .error .loneSurrogate else .ok buffer.chars

/-- Appends a character. -/
def StringBuffer.push (buffer : StringBuffer) (c : Char) : Except Stuck StringBuffer := do
  let chars ← buffer.settle
  return ⟨c :: chars, none⟩

/-- Appends a code unit. -/
def StringBuffer.pushUnit (buffer : StringBuffer) (unit : Nat) : Except Stuck StringBuffer :=
  match buffer.pending with
  | some high =>
    if isLowSurrogate unit then
      .ok ⟨Char.ofNat (0x10000 + (high - 0xd800) * 0x400 + (unit - 0xdc00)) :: buffer.chars, none⟩
    else .error .loneSurrogate
  | none =>
    if isHighSurrogate unit then .ok ⟨buffer.chars, some unit⟩
    else if isLowSurrogate unit then .error .loneSurrogate
    else .ok ⟨Char.ofNat unit :: buffer.chars, none⟩

/-- Reads a string up to its closing quote; `opening` is the text from its opening quote on. A code
unit has to be followed by at least one more character. -/
def readString (opening : List Char) :
    StringState → StringBuffer → List Char → Except Stuck (String × List Char)
  | .plain, _, [] => .error (.faulty .unterminatedString opening)
  | .escape _, _, [] => .error (.faulty .unterminatedString opening)
  | .unit place _ _, _, [] => .error (.faulty .badUnicodeEscape place)
  | .plain, buffer, c :: rest =>
    if c = '"' then do
      let chars ← buffer.settle
      return (String.ofList chars.reverse, rest)
    else if c = '\\' then readString opening (.escape (c :: rest)) buffer rest
    else if c.toNat < 0x20 then .error (.faulty .controlCharacter (c :: rest))
    else do readString opening .plain (← buffer.push c) rest
  | .escape place, buffer, c :: rest =>
    if c = 'u' then readString opening (.unit (c :: rest) 4 0) buffer rest
    else
      match simpleEscape? c with
      | some e => do readString opening .plain (← buffer.push e) rest
      | none => .error (.faulty .badEscape place)
  | .unit place due value, buffer, c :: rest =>
    match hexValue? c with
    | none => .error (.faulty .badUnicodeEscape place)
    | some digit =>
      let value := value * 16 + digit
      if due = 1 then
        if rest.isEmpty then .error (.faulty .badUnicodeEscape place)
        else do readString opening .plain (← buffer.pushUnit value) rest
      else readString opening (.unit place (due - 1) value) buffer rest

/-! ## Numbers -/

/-- The number that a list of decimal digits denotes. -/
def digitsValue (digits : List Char) : Nat :=
  digits.foldl (fun acc c => acc * 10 + (c.toNat - '0'.toNat)) 0

/-- The digits at the front of a text, and what follows them. -/
def spanDigits (text : List Char) : List Char × List Char := text.span Char.isDigit

/-- The whole digits of a number: a zero, or digits that do not begin with one. -/
def wholeDigits? : List Char → Option (List Char × List Char)
  | [] => none
  | c :: rest =>
    if c = '0' then some ([c], rest)
    else if c.isDigit then
      let (digits, rest) := spanDigits rest
      some (c :: digits, rest)
    else none

/-- The digits behind a point; none if no digit follows the point. -/
def fractionDigits : List Char → List Char × List Char
  | '.' :: rest =>
    match spanDigits rest with
    | ([], _) => ([], '.' :: rest)
    | found => found
  | text => ([], text)

/-- The exponent; nothing if no digit follows the mark and its sign. -/
def exponentPart? (text : List Char) : Option (Int × List Char) :=
  match text with
  | mark :: rest =>
    if mark = 'e' || mark = 'E' then
      let (negative, unsigned) :=
        match rest with
        | '-' :: r => (true, r)
        | '+' :: r => (false, r)
        | r => (false, r)
      match spanDigits unsigned with
      | ([], _) => none
      | (digits, rest) =>
        let n := Int.ofNat (digitsValue digits)
        some (if negative then -n else n, rest)
    else none
  | [] => none

/-- Reads a number. -/
def readNumber (text : List Char) : Except Stuck (Json × List Char) :=
  let (negative, unsigned) :=
    match text with
    | '-' :: r => (true, r)
    | r => (false, r)
  match wholeDigits? unsigned with
  | none => .error (.faulty .expectingValue text)
  | some (whole, afterWhole) =>
    let (fraction, afterFraction) := fractionDigits afterWhole
    match exponentPart? afterFraction with
    | some (exponent, rest) =>
      .ok (.float (Decimal.read negative (digitsValue (whole ++ fraction))
        (exponent - fraction.length)), rest)
    | none =>
      if !fraction.isEmpty then
        .ok (.float (Decimal.read negative (digitsValue (whole ++ fraction))
          (-Int.ofNat fraction.length)), afterFraction)
      else if maxWholeDigits < whole.length then .error (.tooLong whole.length)
      else
        let n := Int.ofNat (digitsValue whole)
        .ok (.int (if negative then -n else n), afterFraction)

/-! ## Values -/

/-- The text behind a word, if it begins with it. -/
def afterWord? (word : List Char) (text : List Char) : Option (List Char) :=
  if word.isPrefixOf text then some (text.drop word.length) else none

/-- The words that stand for values. -/
def words : List (List Char × Json) := [
  ("null".toList, .null),
  ("true".toList, .bool true),
  ("false".toList, .bool false),
  ("NaN".toList, .float (0.0 / 0.0)),
  ("Infinity".toList, .float (1.0 / 0.0)),
  ("-Infinity".toList, .float (-1.0 / 0.0))]

/-- Reads a word or a number. -/
def readScalar (text : List Char) : Except Stuck (Json × List Char) :=
  match words.findSome? fun (word, value) =>
      (afterWord? word text).map fun rest => (value, rest) with
  | some found => .ok found
  | none => readNumber text

mutual

/-- Reads the value at the front of a text. -/
def readValue : Nat → List Char → Except Stuck (Json × List Char)
  | 0, text => .error (.faulty .expectingValue text)
  | fuel + 1, text =>
    match text with
    | '"' :: rest => do
      let (s, rest) ← readString text .plain ⟨[], none⟩ rest
      return (.str s, rest)
    | '[' :: rest =>
      let inner := skipBlanks rest
      match inner with
      | ']' :: rest => .ok (.arr [], rest)
      | _ => do
        let (elements, rest) ← readElements fuel inner
        return (.arr elements, rest)
    | '\x7b' :: rest =>
      let inner := skipBlanks rest
      match inner with
      | '\x7d' :: rest => .ok (.obj [], rest)
      | _ => do
        let (members, rest) ← readMembers fuel inner
        return (.obj (Members.ofList members), rest)
    | _ => readScalar text

/-- Reads the elements of a list up to its closing bracket. -/
def readElements : Nat → List Char → Except Stuck (List Json × List Char)
  | 0, text => .error (.faulty .expectingValue text)
  | fuel + 1, text => do
    let (x, rest) ← readValue fuel text
    match skipBlanks rest with
    | ']' :: rest => return ([x], rest)
    | ',' :: rest =>
      let (elements, rest) ← readElements fuel (skipBlanks rest)
      return (x :: elements, rest)
    | rest => throw (.faulty .expectingComma rest)

/-- Reads the members of an object up to its closing brace. -/
def readMembers : Nat → List Char → Except Stuck (List (String × Json) × List Char)
  | 0, text => .error (.faulty .expectingKey text)
  | fuel + 1, text =>
    match text with
    | '"' :: rest => do
      let (key, rest) ← readString text .plain ⟨[], none⟩ rest
      match skipBlanks rest with
      | ':' :: rest =>
        let (x, rest) ← readValue fuel (skipBlanks rest)
        match skipBlanks rest with
        | '\x7d' :: rest => return ([(key, x)], rest)
        | ',' :: rest =>
          let (members, rest) ← readMembers fuel (skipBlanks rest)
          return ((key, x) :: members, rest)
        | rest => throw (.faulty .expectingComma rest)
      | rest => throw (.faulty .expectingColon rest)
    | rest => .error (.faulty .expectingKey rest)

end

/-- Reads a whole text: one value between blanks. -/
def readText (text : List Char) : Except Stuck Json :=
  match text with
  | '\ufeff' :: _ => .error (.faulty .byteOrderMark text)
  | _ => do
    let (value, rest) ← readValue (2 * text.length + 2) (skipBlanks text)
    match skipBlanks rest with
    | [] => return value
    | rest => throw (.faulty .extraData rest)

/-! ## Places -/

/-- A fault with its place: line and column count from one, the offset from zero. -/
structure PlacedFault where
  fault : Fault
  line : Nat
  column : Nat
  offset : Nat
deriving DecidableEq, Repr

/-- The wording of a fault with its place. -/
def PlacedFault.message (f : PlacedFault) : String :=
  s!"{f.fault.message}: line {f.line} column {f.column} (char {f.offset})"

/-- A fault in a text, from the rest of the text at its place. -/
def PlacedFault.ofRest (text : List Char) (fault : Fault) (rest : List Char) : PlacedFault :=
  let offset := text.length - rest.length
  let before := text.take offset
  { fault
    line := before.count '\n' + 1
    column := (before.reverse.takeWhile (· ≠ '\n')).length + 1
    offset }

/-- Why a text cannot be read. -/
inductive ParseError where
  /-- The text is not JSON. -/
  | malformed (fault : PlacedFault)
  /-- A whole number has too many digits. -/
  | tooLong (digits : Nat)
  /-- A surrogate has no partner. -/
  | loneSurrogate
deriving DecidableEq, Repr

/-- The wording of an error. -/
def ParseError.message : ParseError → String
  | .malformed fault => fault.message
  | .tooLong digits =>
    "Exceeds the limit (" ++ toString maxWholeDigits ++
      " digits) for integer string conversion: value has " ++ toString digits ++
      " digits; use sys.set_int_max_str_digits() to increase the limit"
  | .loneSurrogate => "a surrogate has no partner"

/-- The error of a reader that got stuck in a text. -/
def ParseError.ofStuck (text : List Char) : Stuck → ParseError
  | .faulty fault rest => .malformed (.ofRest text fault rest)
  | .tooLong digits => .tooLong digits
  | .loneSurrogate => .loneSurrogate

/-- Reads a JSON text. -/
def parse (text : String) : Except ParseError Json :=
  (readText text.toList).mapError (.ofStuck text.toList)

end SchemaTree.Json
