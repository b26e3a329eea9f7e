import SchemaTree.Event
import SchemaTree.Settings
import SchemaTree.Text.Blank
import SchemaTree.Text.LineEnds

/-!
# Formatting generated code

Generated class modules can be passed through one of two formatting tools. A tool is not part of
this library: looking for it finds it, finds that it is missing or fails, and a tool that is found
formats the code it is given, rejects it or fails. A missing tool and a rejection are reported and
leave the code as it is; settings that cannot be used and failures of a tool are errors. What the
second tool answers is read as lines of text. -/

namespace SchemaTree

/-! ## Tools -/

/-- What the first tool is told besides the code. -/
structure BlackMode where
  /-- The names of the language versions to format for. -/
  targets : List String
  lineLength : Json

/-- What a tool makes of code. -/
inductive ToolAnswer where
  | formatted (code : String)
  | rejected (reason : String)
  /-- The tool fails in another way. -/
  | failed (problem : String)

/-- What looking for a tool finds. -/
inductive Search (α : Type) where
  | missing
  | found (tool : α)
  /-- The search fails in another way. -/
  | failed (problem : String)

/-- The first tool. -/
structure Black where
  /-- The names of the language versions that it knows. -/
  versions : List String
  format : BlackMode → String → ToolAnswer

/-- The second tool, which is told everything in a list of arguments. -/
structure Ruff where
  format : List String → String → ToolAnswer

/-- The formatting tools that there are. -/
structure Tools where
  black : Search Black := .missing
  ruff : Search Ruff := .missing

/-- The two tools. -/
inductive Tool where
  | black
  | ruff
deriving DecidableEq, Repr

/-- The tool of a name. -/
def Tool.ofName? : String → Option Tool
  | "black" => some .black
  | "ruff" => some .ruff
  | _ => none

/-- The name of a tool. -/
def Tool.name : Tool → String
  | .black => "black"
  | .ruff => "ruff"

/-! ## Errors -/

/-- Why code cannot be formatted. -/
inductive FormatError where
  /-- The settings were replaced by a value or lost. -/
  | notSettings (missing : MissingAttribute)
  /-- The name of the tool is a list or an object. -/
  | toolNotScalar (typeWord : String)
  | unknownTool (tool : Json)
  /-- The version for the first tool is no text. -/
  | versionNotText (typeWord : String)
  /-- The version for the second tool is no text. -/
  | argumentNotText (typeWord : String)
  /-- An argument of the second tool has the character zero in it. -/
  | argumentWithZero
  /-- A whole number in a setting that is written has too many digits. -/
  | tooLong
  /-- A tool, or the search for it, failed. -/
  | toolFailed (problem : String)

/-- The wording of an error. -/
def FormatError.message : FormatError → String
  | .notSettings missing => missing.message
  | .toolNotScalar typeWord => "unhashable type: '" ++ typeWord ++ "'"
  | .unknownTool tool => "Unknown formatter: " ++ tool.plain ++ ". Choose from: black, ruff"
  | .versionNotText typeWord => "'" ++ typeWord ++ "' object has no attribute 'upper'"
  | .argumentNotText typeWord => "expected str, bytes or os.PathLike object, not " ++ typeWord
  | .argumentWithZero => "embedded null byte"
  | .tooLong => Json.tooLongMessage
  | .toolFailed problem => problem

/-! ## Choosing the tool and its arguments -/

/-- The error of a value that names no tool. Its wording shows the value. -/
def FormatError.ofTool (tool : Json) : FormatError :=
  if tool.excess?.isSome then .tooLong else .unknownTool tool

/-- The tool that a setting names. -/
def FormatterSettings.tool? (settings : FormatterSettings) : Except FormatError Tool :=
  match settings.tool with
  | .arr _ | .obj _ => .error (.toolNotScalar settings.tool.typeWord)
  | .str name =>
    match Tool.ofName? name with
    | some tool => .ok tool
    | none => .error (.ofTool settings.tool)
  | tool => .error (.ofTool tool)

/-- The mode of the first tool: a version that it does not know is left out. -/
def FormatterSettings.blackMode (settings : FormatterSettings) (versions : List String) :
    Except FormatError BlackMode :=
  if settings.targetVersion.truthy then
    match settings.targetVersion with
    | .str version => .ok ⟨[version.map Char.toUpper].filter (· ∈ versions), settings.lineLength⟩
    | value => .error (.versionNotText value.typeWord)
  else .ok ⟨[], settings.lineLength⟩

/-- Puts an argument behind a flag. A program cannot be started with the character zero in an
argument. -/
def ruffArgument (flag : String) (value : String) : Except FormatError (List String) :=
  if '\x00' ∈ value.toList then .error .argumentWithZero else .ok [flag, value]

/-- How the second tool is told the length of a line. -/
def FormatterSettings.ruffLength (settings : FormatterSettings) :
    Except FormatError (List String) :=
  if settings.lineLength.truthy then
    if settings.lineLength.excess?.isSome then .error .tooLong
    else ruffArgument "--line-length" settings.lineLength.plain
  else .ok []

/-- How the second tool is told the version to format for. -/
def FormatterSettings.ruffVersion (settings : FormatterSettings) :
    Except FormatError (List String) :=
  if settings.targetVersion.truthy then
    match settings.targetVersion with
    | .str version => ruffArgument "--target-version" version
    | value => .error (.argumentNotText value.typeWord)
  else .ok []

/-- The arguments of the second tool. -/
def FormatterSettings.ruffArguments (settings : FormatterSettings) :
    Except FormatError (List String) := do
  let length ← settings.ruffLength
  let version ← settings.ruffVersion
  return ["format", "--stdin-filename", "schema.py"] ++ length ++ version

/-! ## Formatting -/

/-- Formats code with a tool. -/
def Tools.run (tools : Tools) (settings : FormatterSettings) (tool : Tool) (code : String) :
    Logged (Except FormatError String) :=
  match tool with
  | .black =>
    match tools.black with
    | .failed problem => return .error (.toolFailed problem)
    | .missing => do
      Logged.report (.formatterMissing tool.name)
      return .ok code
    | .found black =>
      match settings.blackMode black.versions with
      | .error e => return .error e
      | .ok mode =>
        match black.format mode code with
        | .failed problem => return .error (.toolFailed problem)
        | .formatted formatted => return .ok formatted
        | .rejected reason => do
          Logged.report (.blackRejected reason)
          return .ok code
  | .ruff =>
    match tools.ruff with
    | .failed problem => return .error (.toolFailed problem)
    | .missing => do
      Logged.report (.formatterMissing tool.name)
      return .ok code
    | .found ruff =>
      match settings.ruffArguments with
      | .error e => return .error e
      | .ok arguments =>
        match ruff.format arguments code with
        | .failed problem => return .error (.toolFailed problem)
        | .formatted formatted => return .ok (Text.withLineFeeds formatted)
        | .rejected reason => do
          let reason := (Text.withLineFeeds reason).toList
          Logged.report (.ruffRejected (String.ofList (Text.trimBlanks reason)))
          return .ok code

/-- Formats code if the settings ask for it. -/
def Tools.format (tools : Tools) (settings : Group FormatterSettings) (code : String) :
    Logged (Except FormatError String) :=
  match settings with
  | .missing => return .error (.notSettings ⟨"EmitterConfig", "formatter"⟩)
  | .replaced value => return .error (.notSettings ⟨value.typeWord, "enabled"⟩)
  | .record settings =>
    if settings.enabled.truthy then
      match settings.tool? with
      | .error e => return .error e
      | .ok tool => tools.run settings tool code
    else return .ok code

end SchemaTree
