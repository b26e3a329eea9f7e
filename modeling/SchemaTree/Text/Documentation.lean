import SchemaTree.Text.Blank

/-!
# Documentation texts

A documentation text is often indented like the code around it. Cleaning it widens tabs, takes the
blanks before the first line and the common indentation of the other lines away, and drops empty
lines at both ends.
-/

namespace SchemaTree.Text

/-- Replaces tabs by blanks up to the next column that is a multiple of eight. -/
def widenTabs (column : Nat) : List Char → List Char
  | [] => []
  | '\t' :: rest =>
    let width := 8 - column % 8
    List.replicate width ' ' ++ widenTabs (column + width) rest
  | c :: rest => c :: widenTabs (if c = '\n' ∨ c = '\r' then 0 else column + 1) rest

/-- The lines of a text; there is one more than line feeds. -/
def lines : List Char → List (List Char)
  | [] => [[]]
  | '\n' :: rest => [] :: lines rest
  | c :: rest =>
    match lines rest with
    | [] => [[c]]
    | line :: more => (c :: line) :: more

/-- A text that consists of lines. -/
def unlines : List (List Char) → List Char
  | [] => []
  | [line] => line
  | line :: rest => line ++ '\n' :: unlines rest

/-- The number of blanks before a line; none for a blank line. -/
def indentation? (line : List Char) : Option Nat :=
  let rest := line.dropWhile isBlank
  if rest.isEmpty then none else some (line.length - rest.length)

/-- Takes the indentation away that lines have in common; blank lines have no say in it. -/
def unindent (lines : List (List Char)) : List (List Char) :=
  match (lines.filterMap indentation?).min? with
  | none => lines
  | some margin => lines.map (·.drop margin)

/-- Drops empty lines at the beginning. -/
def dropEmpty : List (List Char) → List (List Char) := List.dropWhile List.isEmpty

/-- Drops empty lines at both ends. -/
def trimEmpty (lines : List (List Char)) : List (List Char) :=
  dropEmpty (dropEmpty lines.reverse).reverse

/-- Cleans a documentation text. -/
def cleanDocumentation (text : List Char) : List Char :=
  match lines (widenTabs 0 text) with
  | [] => []
  | first :: rest => unlines (trimEmpty (first.dropWhile isBlank :: unindent rest))

end SchemaTree.Text
