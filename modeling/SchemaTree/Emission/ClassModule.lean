import SchemaTree.Emission.Fault
import SchemaTree.Emission.TypeExpr

/-!
# Class modules

A class module has imports, helper definitions and blocks, each of which defines a class or an
alias, and at its end it rebuilds every class once all names are defined. What it imports and which
helpers it has is not read off its blocks: rendering notes the names and helpers that it uses while
it makes the blocks, and a module is the record of these notes. What keeps the module from being
written is noted likewise. -/

namespace SchemaTree

/-! ## Blocks -/

/-- One attribute of a class. -/
structure FieldLine where
  key : String
  type : TypeExpr
  /-- The value when the field is absent. -/
  default : Option Json
  /-- The external name, where it is not the key. -/
  external : Option String

/-- A definition of a class module. -/
inductive Block where
  | cls (name : String) (description : Json) (fields : List FieldLine)
  | typeAlias (name : String) (type : TypeExpr)

namespace FieldLine

/-- What follows the type in the text of an attribute. -/
def value (f : FieldLine) : List Char :=
  match f.external, f.default with
  | some external, some value =>
    " = Field(default=".toList ++ value.displayChars ++ ", alias=".toList ++
      Text.doubleQuoted external.toList ++ [')']
  | some external, none => " = Field(alias=".toList ++ Text.doubleQuoted external.toList ++ [')']
  | none, some value => " = ".toList ++ value.displayChars
  | none, none => []

/-- The text of an attribute: its key, its annotation and what follows that. -/
def write (f : FieldLine) : List Char :=
  f.key.toList ++ ':' :: ' ' :: (f.type.write ++ f.value)

end FieldLine

namespace Block

/-- The name that a block defines. -/
def definition : Block → String
  | cls name _ _ => name
  | typeAlias name _ => name

/-- The name of the class that a block defines. -/
def className? : Block → Option String
  | cls name _ _ => some name
  | typeAlias .. => none

end Block

/-! ## Documentation texts -/

/-- Puts a backslash before every backslash. -/
def escapeBackslashes (text : List Char) : List Char :=
  text.flatMap fun c => if c = '\\' then ['\\', '\\'] else [c]

/-- Puts a backslash before each of three double quotes in a row. -/
def escapeTripleQuotes : List Char → List Char
  | '"' :: '"' :: '"' :: rest => ['\\', '"', '\\', '"', '\\', '"'] ++ escapeTripleQuotes rest
  | c :: rest => c :: escapeTripleQuotes rest
  | [] => []

/-- Puts a backslash before a double quote at the very end. -/
def escapeFinalQuote (text : List Char) : List Char :=
  if text.getLast? = some '"' then text.dropLast ++ ['\\', '"'] else text

/-- A text that can stand between triple double quotes. -/
def escapeDocumentation (text : List Char) : List Char :=
  escapeFinalQuote (escapeTripleQuotes (escapeBackslashes text))

/-! ## Helpers -/

/-- Definitions that a class module has in front of its blocks where they are used. -/
inductive Helper where
  | exactLiteral
  | finiteFloat
  | isoDatetime
deriving DecidableEq, Repr

namespace Helper

/-- All helpers, in the order in which they are written. -/
def all : List Helper := [exactLiteral, finiteFloat, isoDatetime]

/-- The identifier that blocks use. -/
def definition : Helper → String
  | exactLiteral => "_exact_literal"
  | finiteFloat => ScalarType.number.identifier
  | isoDatetime => ScalarType.moment.identifier

/-- The imported identifiers that the text of a helper uses. -/
def identifiers : Helper → List String
  | exactLiteral => []
  | finiteFloat => ["Annotated", "Field", "StrictFloat"]
  | isoDatetime => ["re", "datetime", "Annotated", "BeforeValidator"]

/-- The text of a helper. -/
def text : Helper → String
  | exactLiteral =>
    "def _exact_literal(expected):\n" ++
    "    \"\"\"Keep booleans and numbers apart, which ``Literal`` equality does not.\"\"\"\n\n" ++
    "    def check(value):\n" ++
    "        if isinstance(value, bool) != isinstance(expected, bool):\n" ++
    "            raise ValueError(f\"Input should be \x7bexpected!r\x7d\")\n" ++
    "        return value\n\n" ++
    "    return check"
  | finiteFloat => "FiniteFloat = Annotated[StrictFloat, Field(allow_inf_nan=False)]"
  | isoDatetime =>
    "_ISO_DATETIME = re.compile(r\"^\\d\x7b4\x7d-\\d\x7b2\x7d-\\d\x7b2\x7dT\\d\x7b2\x7d:\\d\x7b2\x7d" ++
    "(?::\\d\x7b2\x7d(?:\\.\\d+)?)?(?:Z|[+-]\\d\x7b2\x7d:?\\d\x7b2\x7d)?$\")\n\n\n" ++
    "def _iso_datetime(value):\n" ++
    "    if not isinstance(value, str) or not _ISO_DATETIME.match(value):\n" ++
    "        raise ValueError(\"Input should be an ISO 8601 date-time string\")\n" ++
    "    return value\n\n\n" ++
    "IsoDatetime = Annotated[datetime, BeforeValidator(_iso_datetime)]"

end Helper

/-! ## Imports -/

/-- The identifiers that can be imported from the module of dates. -/
def dateImports : List String := ["datetime"]

/-- The identifiers that can be imported from the module of types, in alphabetical order. -/
def typingImports : List String := ["Annotated", "Any", "Literal", "Optional", "Union"]

/-- The identifiers that can be imported from the validation library, in alphabetical order. -/
def validationImports : List String :=
  ["BaseModel", "BeforeValidator", "Field", "StrictBool", "StrictFloat", "StrictStr"]

/-- The names that a module can import. -/
def importableNames : List String := ["re"] ++ dateImports ++ typingImports ++ validationImports

/-- The names that no definition of a module may take. -/
def reservedNames : List String :=
  ["re"] ++ dateImports ++ typingImports ++ validationImports ++
    [ScalarType.number.identifier, ScalarType.moment.identifier]

/-- The helper that defines the identifier of a scalar type, if it is not imported. -/
def ScalarType.helper? : ScalarType → Option Helper
  | .number => some .finiteFloat
  | .moment => some .isoDatetime
  | .text | .flag => none

/-! ## Modules -/

/-- A class module. -/
structure ClassModule where
  /-- The names that are used: imported ones and all names given out. -/
  usedNames : List String
  usedHelpers : List Helper := []
  blocks : List Block := []
  /-- The names of the classes, in the order of their blocks. -/
  classNames : List String := []
  /-- What keeps the module from being written, in the order in which it was met. -/
  faults : List WriteFault := []

namespace ClassModule

/-- The helpers of a module, in the order in which they are written. -/
def helpers (m : ClassModule) : List Helper := Helper.all.filter (· ∈ m.usedHelpers)

/-- Those of some importable identifiers that are used. -/
def imported (m : ClassModule) (candidates : List String) : List String :=
  candidates.filter (· ∈ m.usedNames)

/-- The line that imports identifiers from a source. -/
def importLine (source : String) (names : List String) : String :=
  "from " ++ source ++ " import " ++ String.intercalate ", " names

/-- The lines that import identifiers from a source, if there are any. -/
def importLines? (source : String) (names : List String) : List String :=
  if names.isEmpty then [] else [importLine source names]

/-- The import lines: general modules, a blank line, the validation library. -/
def importLines (m : ClassModule) : List String :=
  let general := (m.imported ["re"]).map ("import " ++ ·) ++
    importLines? "datetime" (m.imported dateImports) ++
    importLines? "typing" (m.imported typingImports)
  general ++ (if general.isEmpty then [] else [""]) ++
    [importLine "pydantic" (m.imported validationImports)]

end ClassModule

/-- The text that documents a class: none if the description counts as false. -/
def documentationOf (description : Json) : Option (List Char) :=
  if description.truthy then
    description.asString?.map fun s => escapeDocumentation s.toList
  else none

/-- The lines of the body of a class. -/
def classBody (documentation : Option (List Char)) (fields : List FieldLine) : List (List Char) :=
  let lines := fields.map fun f => "    ".toList ++ f.write
  match documentation with
  | none => if lines.isEmpty then ["    pass".toList] else lines
  | some text =>
    ("    \"\"\"".toList ++ text ++ "\"\"\"".toList) :: (if lines.isEmpty then [] else [] :: lines)

/-- The text of a block. -/
def Block.write : Block → List Char
  | cls name description fields =>
    Json.joinWith ['\n'] (("class ".toList ++ name.toList ++ "(BaseModel):".toList) ::
      classBody (documentationOf description) fields)
  | typeAlias name type => name.toList ++ " = ".toList ++ type.write

namespace ClassModule

/-- The lines that end a module, one for each class. -/
def rebuilds (m : ClassModule) : List Char :=
  Json.joinWith ['\n'] (m.classNames.map fun name => name.toList ++ ".model_rebuild()".toList) ++
    ['\n']

/-- The text of a module without faults. -/
def text (m : ClassModule) : List Char :=
  let imports := Json.joinWith ['\n'] (m.importLines.map String.toList)
  let helpers := m.helpers.map fun h => h.text.toList
  Json.joinWith "\n\n\n".toList ((imports :: helpers) ++ m.blocks.map Block.write) ++
    "\n\n\n".toList ++ m.rebuilds

/-- Writes a module, unless something keeps it from being written. -/
def write (m : ClassModule) : Except WriteFault (List Char) :=
  match m.faults with
  | [] => .ok m.text
  | fault :: _ => .error fault

end ClassModule

end SchemaTree
