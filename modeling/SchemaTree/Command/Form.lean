import SchemaTree.Event.Line
import SchemaTree.Text.Similarity

/-!
# Forms of commands

What a command line may hold: which options and operands each command has and what they have to be.
Usage lines and help are made from the forms, so they cannot disagree with what is read.
-/

namespace SchemaTree

/-- What the text of an option or operand has to be. -/
inductive ValueForm where
  | text
  | path
  /-- A path that leads to something. -/
  | existingPath
  | choice (names : List String)
deriving DecidableEq, Repr

/-- How a form shows in help. -/
def ValueForm.placeholder : ValueForm → String
  | .text => "TEXT"
  | .path | .existingPath => "PATH"
  | .choice names => "[" ++ String.intercalate "|" names ++ "]"

/-- An option. -/
structure OptionForm where
  /-- The long name, with its dashes. -/
  long : String
  short : Option Char
  /-- What its value has to be; a flag has none. -/
  value : Option ValueForm
  about : String
deriving DecidableEq, Repr

/-- An operand. -/
structure OperandForm where
  name : String
  value : ValueForm
deriving DecidableEq, Repr

/-- A command. -/
structure CommandForm where
  /-- The words that call the command. -/
  words : String
  options : List OptionForm
  operands : List OperandForm
  /-- What follows the options in a usage line. -/
  rest : String
  about : String
deriving DecidableEq, Repr

/-! ## Options -/

namespace OptionForm

/-- The option that shows help. Every command has it. -/
def help : OptionForm := ⟨"--help", none, none, "Show this message and exit."⟩

/-- The names of an option in help. -/
def shown (o : OptionForm) : String :=
  (match o.short with
    | some c => "-" ++ c.toString ++ ", "
    | none => "") ++ o.long ++
  (match o.value with
    | some value => " " ++ value.placeholder
    | none => "")

/-- The names of an option in a message about its value. -/
def hint (o : OptionForm) : String :=
  "'" ++ o.long ++ "'" ++
  match o.short with
  | some c => " / '-" ++ c.toString ++ "'"
  | none => ""

end OptionForm

/-- The name of an operand in a message about its value. -/
def OperandForm.hint (o : OperandForm) : String := "'" ++ o.name ++ "'"

/-! ## Usage and help -/

/-- Lines of two columns. A line without a second column ends after the first. -/
def columns (rows : List (String × String)) : String :=
  let width := (rows.map fun (first, _) => first.length).foldl max 0 + 2
  String.join (rows.map fun (first, second) =>
    "  " ++ (if second = "" then first else Event.padded width first ++ second) ++ "\n")

namespace CommandForm

/-- The option with a long name. -/
def long? (f : CommandForm) (name : String) : Option OptionForm :=
  f.options.find? (·.long = name)

/-- The option with a short name. -/
def short? (f : CommandForm) (name : Char) : Option OptionForm :=
  f.options.find? (·.short = some name)

/-- How a command is used. -/
def usage (f : CommandForm) : String := "Usage: " ++ f.words ++ " [OPTIONS] " ++ f.rest ++ "\n"

/-- The help of a command, with the commands below it. -/
def help (f : CommandForm) (commands : List (String × String)) : String :=
  f.usage ++ "\n  " ++ f.about ++ "\n\nOptions:\n" ++
    columns (f.options.map fun o => (o.shown, o.about)) ++
    if commands.isEmpty then "" else "\nCommands:\n" ++ columns commands

end CommandForm

/-! ## The commands -/

/-- The commands. -/
inductive Command where
  | check
  | emit
  | importSchema
deriving DecidableEq, Repr

namespace Command

/-- All commands in alphabetical order. -/
def all : List Command := [.check, .emit, .importSchema]

/-- The name of a command. -/
def name : Command → String
  | .check => "check"
  | .emit => "emit"
  | .importSchema => "import"

/-- The command of a name. -/
def ofName? (name : String) : Option Command := all.find? (·.name = name)

/-- The option for a file with settings. -/
def configOption : OptionForm := ⟨"--config", some 'c', some .existingPath, ""⟩

/-- The option for the language of emission. -/
def languageOption : OptionForm :=
  ⟨"--language", some 'l', some (.choice ["pydantic", "zod"]), ""⟩

/-- The option to write over what exists. -/
def forceOption : OptionForm := ⟨"--force", none, none, "Overwrite OUTPUT if it exists"⟩

/-- A form with operands. -/
def formOf (command : Command) (options : List OptionForm) (operands : List OperandForm)
    (about : String) : CommandForm where
  words := programName ++ " " ++ command.name
  options := options ++ [.help]
  operands := operands
  rest := String.intercalate " " (operands.map (·.name))
  about := about

/-- The form of a command. -/
def form : Command → CommandForm
  | .check => formOf .check [configOption] [⟨"PATH", .existingPath⟩, ⟨"DATA", .existingPath⟩]
    "Validate a JSON DATA file against the schema described by an IR document."
  | .emit => formOf .emit [configOption, languageOption, forceOption]
    [⟨"PATH", .existingPath⟩, ⟨"OUTPUT", .path⟩]
    "Generate zod or pydantic source code from an IR document."
  | .importSchema => formOf .importSchema [forceOption] [⟨"REFERENCE", .text⟩, ⟨"OUTPUT", .path⟩]
    "Write the IR document for a pydantic model given as MODULE:ATTRIBUTE."

/-- A command in one line. -/
def summary : Command → String
  | .check => "Validate a JSON DATA file against the schema described by an IR..."
  | .emit => "Generate zod or pydantic source code from an IR document."
  | .importSchema => "Write the IR document for a pydantic model given as..."

end Command

/-- The option to log every event. -/
def verboseOption : OptionForm :=
  ⟨"--verbose", some 'v', none, "Log fallback decisions at debug level"⟩

/-- The option to log in JSON. -/
def jsonLogsOption : OptionForm := ⟨"--json-logs", none, none, "Write log events as JSON lines"⟩

/-- The option to show the version. -/
def versionOption : OptionForm := ⟨"--version", none, none, "Show the version and exit."⟩

/-- The form of the program as a whole. -/
def programForm : CommandForm where
  words := programName
  options := [verboseOption, jsonLogsOption, versionOption, .help]
  operands := []
  rest := "COMMAND [ARGS]..."
  about := "Translate between schema IR documents and validation schemas."

/-- The help of the program. -/
def programHelp : String := programForm.help (Command.all.map fun c => (c.name, c.summary))

end SchemaTree
