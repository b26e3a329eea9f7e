import SchemaTree.Json.Printer

/-!
# Displaying values

Messages show a value in display notation, and generated class modules write default values and
literals in the same notation: `None`, `True`, `1.5`, `'a'`, `[1, 'a']`, `{'k': None}`. Names and
ids that a document gives as other values than strings become their display text. -/

namespace SchemaTree.Json

mutual

/-- The display notation of a value. -/
def displayChars : Json → List Char
  | .null => "None".toList
  | .bool b => (if b then "True" else "False").toList
  | .int n => (toString n).toList
  | .float x => Decimal.Layout.display.text (.ofFloat x)
  | .str s => Text.displayQuoted s.toList
  | .arr elements => '[' :: (joinWith [',', ' '] (displayElements elements) ++ [']'])
  | .obj members => '\x7b' :: (joinWith [',', ' '] (displayMembers members) ++ ['\x7d'])

/-- The display notations of the elements of a list. -/
def displayElements : List Json → List (List Char)
  | [] => []
  | x :: rest => displayChars x :: displayElements rest

/-- The display notations of the members of an object. -/
def displayMembers : List (String × Json) → List (List Char)
  | [] => []
  | (key, x) :: rest =>
    (Text.displayQuoted key.toList ++ ':' :: ' ' :: displayChars x) :: displayMembers rest

end

/-- The display notation of a value as a string. -/
def display (value : Json) : String := String.ofList value.displayChars

/-- A value used as a text: a string is itself, any other value its display notation. -/
def plain : Json → String
  | .str s => s
  | value => value.display

end SchemaTree.Json
