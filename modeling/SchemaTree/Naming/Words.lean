/-!
# Words and letter cases

A name is split into words at every character that is no ASCII letter or digit, before every capital
letter, and between letters and digits. `pascalCase` joins the capitalized words and `camelCase`
starts the result with a small letter.

    first_name ↦ FirstName      actionTemplate ↦ ActionTemplate      first 3 rows ↦ First3Rows
-/

namespace SchemaTree.Naming

/-- Whether `b` continues a word that goes up to `a`. -/
def continuesWord (a b : Char) : Bool :=
  b.isLower && (a.isLower || a.isUpper) || b.isDigit && a.isDigit

/-- The words of a name. -/
def words (name : List Char) : List (List Char) :=
  (name.splitBy continuesWord).filter fun word => word.all Char.isAlphanum

/-- A word with a capital first letter and small ones after it. -/
def capitalize : List Char → List Char
  | [] => []
  | c :: rest => c.toUpper :: rest.map Char.toLower

/-- The capitalized words of a name, joined. -/
def pascalChars (name : List Char) : List Char := (words name).flatMap capitalize

/-- A name in Pascal case. -/
def pascalCase (name : String) : String := String.ofList (pascalChars name.toList)

/-- The characters of a name in camel case. -/
def camelChars (name : List Char) : List Char :=
  match pascalChars name with
  | [] => []
  | c :: rest => c.toLower :: rest

/-- A name in camel case. -/
def camelCase (name : String) : String := String.ofList (camelChars name.toList)

end SchemaTree.Naming
