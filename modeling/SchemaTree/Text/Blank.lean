import SchemaTree.Text.CodeRange

/-!
# Blank characters

The characters that count as white space in texts: the blanks, tabs and line ends of Unicode and the
four separators of ASCII.
-/

namespace SchemaTree.Text

/-- The code points of blank characters. -/
def blankRanges : List (Nat × Nat) := [
  (0x9, 0xd), (0x1c, 0x20), (0x85, 0x85), (0xa0, 0xa0), (0x1680, 0x1680), (0x2000, 0x200a),
  (0x2028, 0x2029), (0x202f, 0x202f), (0x205f, 0x205f), (0x3000, 0x3000)]

/-- Whether a character is blank. -/
def isBlank (c : Char) : Bool := inRanges blankRanges c.toNat

/-- A text without the blanks at its ends. -/
def trimBlanks (text : List Char) : List Char :=
  ((text.dropWhile isBlank).reverse.dropWhile isBlank).reverse

end SchemaTree.Text
