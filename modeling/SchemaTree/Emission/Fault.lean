import SchemaTree.Json.Basic

/-!
# What keeps a module from being written

Most of a document can be written whatever it is. A module is kept from being written by a
description that would document a class and is no text, by an indentation that cannot be repeated,
and by a whole number with too many digits. Each backend comes to these in an order of its own, and
the first one is the error. -/

namespace SchemaTree

/-- What keeps a module from being written. -/
inductive WriteFault where
  /-- The documentation of a class is no text. -/
  | descriptionNotText (typeWord : String)
  /-- The indentation unit cannot be repeated. -/
  | indentNotRepeatable (typeWord : String)
  /-- A whole number has too many digits. -/
  | tooLong
deriving DecidableEq, Repr

namespace WriteFault

/-- The wording of a fault. -/
def message : WriteFault → String
  | descriptionNotText typeWord => "'" ++ typeWord ++ "' object has no attribute 'replace'"
  | indentNotRepeatable typeWord =>
    "unsupported operand type(s) for *: '" ++ typeWord ++ "' and 'int'"
  | tooLong => Json.tooLongMessage

/-- Why the text of a value cannot be made. -/
def ofValue (value : Json) : List WriteFault := if value.excess?.isSome then [tooLong] else []

/-- Why a description cannot document a class: it is neither a text nor counts as false. -/
def ofDocumentation (description : Json) : List WriteFault :=
  if description.truthy ∧ description.asString?.isNone then
    [descriptionNotText description.typeWord]
  else []

/-- Why the indentation of a depth cannot be made from a unit. Null and objects cannot be repeated,
a list is repeated as a list and a number is multiplied. -/
def ofIndent (unit : Json) (depth : Nat) : List WriteFault :=
  match unit with
  | .null | .obj _ => [indentNotRepeatable unit.typeWord]
  | .int n => ofValue (.int (n * depth))
  | .arr elements => ofValue (.arr (List.replicate depth elements).flatten)
  | .bool _ | .float _ | .str _ => []

end WriteFault

end SchemaTree
