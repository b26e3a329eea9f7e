/-!
# Parts of a text

Paths and the names of modules are texts whose parts stand between marks.
-/

namespace SchemaTree.Text

/-- The characters up to the first mark, and the parts after it. -/
def separate (mark : Char) : List Char → List Char × List (List Char)
  | [] => ([], [])
  | c :: rest =>
    let (first, others) := separate mark rest
    if c = mark then ([], first :: others) else (c :: first, others)

/-- The parts of a text between marks: one more than there are marks. -/
def parts (mark : Char) (text : String) : List String :=
  let (first, others) := separate mark text.toList
  (first :: others).map String.ofList

end SchemaTree.Text
