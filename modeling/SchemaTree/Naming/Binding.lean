import SchemaTree.Naming.Words

/-!
# Property keys and binding names

Which names may stand unquoted as a property key of a module, and how any name is turned into a name
that a module can bind: a name that already is one stays, any other is put into camel case, and an
underscore is put before a digit or around a clash with a reserved word.

The test for an unquoted key ignores one line feed at the very end of the name.
-/

namespace SchemaTree.Naming

/-- The words that cannot be bound. -/
def reservedWords : List String := [
  "break", "case", "catch", "class", "const", "continue", "debugger", "default", "delete", "do",
  "else", "enum", "export", "extends", "false", "finally", "for", "function", "if", "import", "in",
  "instanceof", "new", "null", "return", "super", "switch", "this", "throw", "true", "try",
  "typeof", "var", "void", "while", "with", "yield"]

/-- Whether a character can begin an unquoted key. -/
def isKeyStart (c : Char) : Bool := c.isAlpha || c = '_' || c = '$'

/-- Whether a character can continue an unquoted key. -/
def isKeyPart (c : Char) : Bool := c.isAlphanum || c = '_' || c = '$'

/-- The text without one line feed at its end. -/
def dropFinalLineFeed (text : List Char) : List Char :=
  if text.getLast? = some '\n' then text.dropLast else text

/-- Whether a text is a letter, underscore or dollar sign followed by such and digits. -/
def isKeyWord : List Char → Bool
  | [] => false
  | c :: rest => isKeyStart c && rest.all isKeyPart

/-- Whether a name can stand unquoted as a property key. -/
def isUnquotedKey (name : String) : Bool := isKeyWord (dropFinalLineFeed name.toList)

/-- The name under which a module binds something called `name`; `fallback` where nothing of the
name can be used. -/
def bindingName (name : String) (fallback : String := "ref") : String :=
  if isUnquotedKey name ∧ name ∉ reservedWords then name
  else
    match camelChars name.toList with
    | [] => fallback
    | c :: rest =>
      let candidate := if c.isDigit then '_' :: c :: rest else c :: rest
      let candidate := String.ofList candidate
      if candidate ∈ reservedWords then "_" ++ candidate else candidate

end SchemaTree.Naming
