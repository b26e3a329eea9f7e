/-!
# Line ends

A text that is read as lines has a line feed at every line end, whether a line feed, a carriage
return or both stood there. -/

namespace SchemaTree.Text

/-- A text with every line end written as a line feed. -/
def normalizeLineEnds : List Char → List Char
  | '\r' :: '\n' :: rest => '\n' :: normalizeLineEnds rest
  | '\r' :: rest => '\n' :: normalizeLineEnds rest
  | c :: rest => c :: normalizeLineEnds rest
  | [] => []

/-- A string with every line end written as a line feed. -/
def withLineFeeds (s : String) : String := String.ofList (normalizeLineEnds s.toList)

end SchemaTree.Text
