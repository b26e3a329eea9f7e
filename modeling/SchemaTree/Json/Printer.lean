import SchemaTree.Decimal.Layout
import SchemaTree.Json.Basic
import SchemaTree.Text.Quote

/-!
# Printing JSON

One printer with a record of the choices that make up a style: indentation, the blanks after commas
and colons, the layout of numbers and whether strings are written in ASCII. `Style.document` is the
style of documents, `Style.compact` that of validated data.
-/

namespace SchemaTree.Json

/-- The choices of one style of printing. -/
structure Style where
  /-- Blanks per level of nesting; without it all stands on one line. -/
  indent : Option Nat
  /-- Whether a blank follows a comma within a line, and a colon. -/
  spaced : Bool
  numbers : Decimal.Layout
  ascii : Bool

/-- Documents, and all values shown as JSON text. -/
def Style.document (indent : Option Nat) : Style := ⟨indent, true, .document, false⟩

/-- Lines of a machine-readable log. -/
def Style.logLine : Style := ⟨none, true, .document, true⟩

/-- Validated data on one line. -/
def Style.compact : Style := ⟨none, false, .compact, false⟩

/-- Validated data over several lines. -/
def Style.pretty : Style := ⟨some 2, true, .compact, false⟩

/-- The line break before an element at a level of nesting. -/
def Style.lineBreak (style : Style) (level : Nat) : List Char :=
  match style.indent with
  | none => []
  | some n => '\n' :: List.replicate (n * level) ' '

/-- The separator of two elements at a level of nesting. -/
def Style.comma (style : Style) (level : Nat) : List Char :=
  match style.indent with
  | none => if style.spaced then [',', ' '] else [',']
  | some _ => ',' :: style.lineBreak level

/-- The separator of a key and its value. -/
def Style.colon (style : Style) : List Char := if style.spaced then [':', ' '] else [':']

/-- A string in the style. -/
def Style.string (style : Style) (s : String) : List Char :=
  if style.ascii then Text.asciiQuoted s.toList else Text.doubleQuoted s.toList

/-- Joins texts with a separator. -/
def joinWith (separator : List Char) : List (List Char) → List Char
  | [] => []
  | [piece] => piece
  | piece :: rest => piece ++ separator ++ joinWith separator rest

/-- The elements of a list or object, at one level below `level`, between its brackets. -/
def Style.bracket (style : Style) (level : Nat) (opening closing : Char)
    (pieces : List (List Char)) :
    List Char :=
  if pieces.isEmpty then [opening, closing]
  else
    opening :: (style.lineBreak (level + 1) ++ joinWith (style.comma (level + 1)) pieces ++
      style.lineBreak level ++ [closing])

mutual

/-- The text of a value that stands at a level of nesting. -/
def write (style : Style) (level : Nat) : Json → List Char
  | .null => "null".toList
  | .bool b => (if b then "true" else "false").toList
  | .int n => (toString n).toList
  | .float x => style.numbers.text (.ofFloat x)
  | .str s => style.string s
  | .arr elements => style.bracket level '[' ']' (writeElements style (level + 1) elements)
  | .obj members => style.bracket level '\x7b' '\x7d' (writeMembers style (level + 1) members)

/-- The texts of the elements of a list. -/
def writeElements (style : Style) (level : Nat) : List Json → List (List Char)
  | [] => []
  | x :: rest => write style level x :: writeElements style level rest

/-- The texts of the members of an object. -/
def writeMembers (style : Style) (level : Nat) : List (String × Json) → List (List Char)
  | [] => []
  | (key, x) :: rest =>
    (style.string key ++ style.colon ++ write style level x) :: writeMembers style level rest

end

/-- The text of a value. -/
def print (style : Style) (value : Json) : String := String.ofList (value.write style 0)

/-- The text of a value on one line, in the style of documents. -/
def text (value : Json) : String := value.print (.document none)

end SchemaTree.Json
