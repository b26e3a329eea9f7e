import SchemaTree.Tree.Basic

/-!
# Type expressions

The types that a class module writes, and their text. A type expression names a definition of the
module either directly or, where the definition may come later, between quotes. `identifiers` lists
the identifiers that the text of a type expression uses outside of quotes.
-/

namespace SchemaTree

/-- The identifier of a scalar type. -/
def ScalarType.identifier : ScalarType → String
  | .text => "StrictStr"
  | .number => "FiniteFloat"
  | .flag => "StrictBool"
  | .moment => "IsoDatetime"

/-- A type expression. -/
inductive TypeExpr where
  | scalar (type : ScalarType)
  | any
  | literal (text : String)
  /-- A literal that keeps numbers and booleans apart. -/
  | guarded (value : Scalar)
  /-- A definition of the module. -/
  | name (definition : String)
  /-- A definition of the module that may stand further down. -/
  | forward (definition : String)
  | list (element : TypeExpr)
  | optional (inner : TypeExpr)
  | union (options : List TypeExpr)
  | described (inner : TypeExpr) (description : Json)
deriving Inhabited

namespace TypeExpr

mutual

/-- The text of a type expression. -/
def write : TypeExpr → List Char
  | .scalar type => type.identifier.toList
  | .any => "Any".toList
  | .literal text => "Literal[".toList ++ Text.doubleQuoted text.toList ++ [']']
  | .guarded value =>
    "Annotated[Literal[".toList ++ value.toJson.displayChars ++
      "], BeforeValidator(_exact_literal(".toList ++ value.toJson.displayChars ++ "))]".toList
  | .name definition => definition.toList
  | .forward definition => Text.doubleQuoted definition.toList
  | .list element => "list[".toList ++ write element ++ [']']
  | .optional inner => "Optional[".toList ++ write inner ++ [']']
  | .union options => "Union[".toList ++ Json.joinWith [',', ' '] (writeAll options) ++ [']']
  | .described inner description =>
    "Annotated[".toList ++ write inner ++ ", Field(description=".toList ++
      description.write (.document none) 0 ++ ")]".toList

/-- The texts of several type expressions. -/
def writeAll : List TypeExpr → List (List Char)
  | [] => []
  | a :: rest => write a :: writeAll rest

end

mutual

/-- The identifiers that the text of a type expression uses, quoted ones apart. -/
def identifiers : TypeExpr → List String
  | .scalar type => [type.identifier]
  | .any => ["Any"]
  | .literal _ => ["Literal"]
  | .guarded _ => ["Annotated", "Literal", "BeforeValidator", "_exact_literal"]
  | .name definition => [definition]
  | .forward _ => []
  | .list element => "list" :: identifiers element
  | .optional inner => "Optional" :: identifiers inner
  | .union options => "Union" :: identifiersAll options
  | .described inner _ => "Annotated" :: "Field" :: identifiers inner

/-- The identifiers that several type expressions use. -/
def identifiersAll : List TypeExpr → List String
  | [] => []
  | a :: rest => identifiers a ++ identifiersAll rest

end

mutual

/-- The definitions that a type expression names between quotes. -/
def forwards : TypeExpr → List String
  | .forward definition => [definition]
  | .list inner | .optional inner | .described inner _ => forwards inner
  | .union options => forwardsAll options
  | _ => []

/-- The definitions that several type expressions name between quotes. -/
def forwardsAll : List TypeExpr → List String
  | [] => []
  | a :: rest => forwards a ++ forwardsAll rest

end

end TypeExpr

end SchemaTree
