import SchemaTree.Text.Printable

/-!
# Quoted text

Two ways to put a text between quotes.

* `doubleQuoted` is the string notation of JSON: double quotes, and a backslash before what would
  end or break the string. Characters beyond ASCII stand for themselves unless `asciiOnly` is asked
  for, which writes them as UTF-16 units.
* `displayQuoted` is the notation of displayed values: single quotes unless the text has a single
  and no double quote, and every character that is not printable is written by its code point. -/

namespace SchemaTree.Text

/-- A natural number in lower-case hexadecimal, padded with zeros to a least width. -/
def hex (width n : Nat) : List Char :=
  let digits := Nat.toDigits 16 n
  List.replicate (width - digits.length) '0' ++ digits

/-! ## JSON strings -/

/-- One character between double quotes. -/
def doubleQuotedChar (c : Char) : List Char :=
  match c with
  | '"' => ['\\', '"']
  | '\\' => ['\\', '\\']
  | '\n' => ['\\', 'n']
  | '\r' => ['\\', 'r']
  | '\t' => ['\\', 't']
  | '\x08' => ['\\', 'b']
  | '\x0c' => ['\\', 'f']
  | c => if c.toNat < 0x20 then '\\' :: 'u' :: hex 4 c.toNat else [c]

/-- A text as a JSON string. -/
def doubleQuoted (text : List Char) : List Char :=
  '"' :: (text.flatMap doubleQuotedChar ++ ['"'])

/-- The UTF-16 units of a character. -/
def utf16 (c : Char) : List Nat :=
  if c.toNat < 0x10000 then [c.toNat]
  else
    let offset := c.toNat - 0x10000
    [0xd800 + offset / 0x400, 0xdc00 + offset % 0x400]

/-- One character between double quotes, written in ASCII. -/
def asciiQuotedChar (c : Char) : List Char :=
  if c.toNat < 0x7f then doubleQuotedChar c
  else (utf16 c).flatMap fun unit => '\\' :: 'u' :: hex 4 unit

/-- A text as a JSON string in ASCII. -/
def asciiQuoted (text : List Char) : List Char :=
  '"' :: (text.flatMap asciiQuotedChar ++ ['"'])

/-! ## Displayed text -/

/-- The quote of a displayed text: single, unless the text has a single and no double quote. -/
def displayQuote (text : List Char) : Char :=
  if text.contains '\'' && !text.contains '"' then '"' else '\''

/-- One character of a displayed text between two `quote`s. -/
def displayChar (quote c : Char) : List Char :=
  if c = quote ∨ c = '\\' then ['\\', c]
  else if c = '\n' then ['\\', 'n']
  else if c = '\r' then ['\\', 'r']
  else if c = '\t' then ['\\', 't']
  else if isPrintable c then [c]
  else if c.toNat < 0x100 then '\\' :: 'x' :: hex 2 c.toNat
  else if c.toNat < 0x10000 then '\\' :: 'u' :: hex 4 c.toNat
  else '\\' :: 'U' :: hex 8 c.toNat

/-- A text as a displayed value. -/
def displayQuoted (text : List Char) : List Char :=
  let quote := displayQuote text
  quote :: (text.flatMap (displayChar quote) ++ [quote])

/-- A string as a JSON string. -/
def quote (s : String) : String := String.ofList (doubleQuoted s.toList)

/-- A string as a displayed value. -/
def display (s : String) : String := String.ofList (displayQuoted s.toList)

end SchemaTree.Text
