import SchemaTree.Json.Display
import SchemaTree.Shape.Failure

/-!
# Reports of failures

The report of a validation has a heading and then three lines for every failure: where, what with an
excerpt of the input, and where to read more. A failure of the whole input has no line for where.
-/

namespace SchemaTree

/-- A step in a report. A name with a dot is set off, since dots separate steps. -/
def Step.reported : Step → String
  | .name s => if s.toList.contains '.' then "`" ++ s ++ "`" else s
  | .index n => toString n

/-- The longest start of a text that takes at most a number of bytes. -/
def takeBytes (bound : Nat) : List Char → List Char
  | [] => []
  | c :: rest => if c.utf8Size ≤ bound then c :: takeBytes (bound - c.utf8Size) rest else []

/-- A text of more than 50 bytes without its middle: 25 bytes from its start and 24 from its end,
each without characters that are cut. -/
def excerpt (text : List Char) : List Char :=
  if (String.ofList text).utf8ByteSize ≤ 50 then text
  else takeBytes 25 text ++ "...".toList ++ (takeBytes 24 text.reverse).reverse

/-- The address of a page about a sort of faults. -/
def Fault.address (fault : Fault) : String :=
  String.intercalate "/" ["https:", "", "errors.pydantic.dev", "2.14", "v", fault.word]

namespace Failure

/-- What a failure says. -/
def statement (f : Failure) : String :=
  "  " ++ f.fault.message ++ " [type=" ++ f.fault.word ++ ", input_value=" ++
    String.ofList (excerpt f.input.displayChars) ++ ", input_type=" ++ f.input.typeWord ++ "]"

/-- The lines of a failure. -/
def report (f : Failure) : List String :=
  (if f.place.isEmpty then [] else [String.intercalate "." (f.place.map Step.reported)]) ++
  [f.statement, "    For further information visit " ++ f.fault.address]

end Failure

/-- The report of the failures of a validation. -/
def failureReport (title : String) (failures : List Failure) : String :=
  let heading := toString failures.length ++ " validation error" ++
    (if failures.length = 1 then "" else "s") ++ " for " ++ title
  String.intercalate "\n" (heading :: failures.flatMap Failure.report)

end SchemaTree
