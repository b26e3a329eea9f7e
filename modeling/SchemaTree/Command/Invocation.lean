import SchemaTree.Command.Arguments
import SchemaTree.Emission.Emit
import SchemaTree.Files.FileTree

/-!
# Invocations

A command line asks for help, for the version, or for one of the commands with everything that it
needs. Paths become locations here: a step up undoes the step before it, whether or not that exists.
-/

namespace SchemaTree

/-- A command with its options and operands. -/
inductive Invocation where
  | check (settings : Option Path) (document data : Path)
  | emit (settings : Option Path) (language : Option Language) (force : Bool)
    (document output : Path)
  | importSchema (force : Bool) (reference : String) (output : Path)
deriving DecidableEq, Repr

/-- What a command line asks for. -/
inductive Request where
  | help (text : String)
  | version
  | run (log : LogSettings) (invocation : Invocation)
deriving DecidableEq, Repr

/-- Why a command line asks for nothing. -/
inductive Misuse where
  /-- There are no arguments at all. -/
  | empty
  | wrong (form : CommandForm) (error : UsageError)
deriving DecidableEq, Repr

/-- The report of a misuse. -/
def Misuse.report : Misuse → String
  | .empty => programHelp
  | .wrong f e => e.report f

namespace FileTree

/-- The path to the location that an argument names. -/
def resolved (t : FileTree) (argument : String) : Path :=
  .toLocation ((Path.ofText argument).resolve t.working)

/-- Whether an argument leads to something. -/
def leads (t : FileTree) (argument : String) : Bool := t.has (t.resolved argument)

end FileTree

namespace Command

/-- A command with checked arguments. -/
def invocation (command : Command) (t : FileTree) (a : Arguments) : Except UsageError Invocation :=
  let settings := (a.value? configOption).map t.resolved
  match command, a.operands with
  | .check, [document, data] => .ok (.check settings (t.resolved document) (t.resolved data))
  | .emit, [document, output] =>
    .ok (.emit settings (a.value? languageOption >>= Language.ofName?) (a.has forceOption)
      (t.resolved document) (t.resolved output))
  | .importSchema, [reference, output] =>
    .ok (.importSchema (a.has forceOption) reference (t.resolved output))
  | _, operands => .error (.operandsUnwanted operands)

/-- Reads the arguments of a command. -/
def read (command : Command) (log : LogSettings) (t : FileTree) (arguments : List String) :
    Except UsageError Request := do
  let a ← command.form.split true arguments
  if a.has .help then return .help (command.form.help [])
  else
    command.form.check t.leads a
    return .run log (← command.invocation t a)

end Command

/-- What the first of the options that end the reading of a command line at once asks for. -/
def endingRequest? (a : Arguments) : Option Request :=
  ((a.options.map (·.1)).find? fun o => o = .help ∨ o = versionOption).map fun o =>
    if o = .help then .help programHelp else .version

/-- Reads the options before a command. -/
def readProgramOptions (arguments : List String) : Except Misuse Arguments :=
  (programForm.split false arguments).mapError (.wrong programForm)

/-- Reads what stands where a command has to be but names none. Options can stand there, after `--`,
and count as options once more. -/
def readNoCommand (name : String) (arguments : List String) : Except Misuse Request := do
  let a ← readProgramOptions (name :: arguments)
  match endingRequest? a with
  | some request => return request
  | none =>
    let similar := Text.closest name (Command.all.map Command.name)
    throw (.wrong programForm (.unknownCommand name similar))

/-- Reads a command line. -/
def readCommandLine (t : FileTree) : List String → Except Misuse Request
  | [] => .error .empty
  | arguments => do
    let a ← readProgramOptions arguments
    match endingRequest? a, a.operands with
    | some request, _ => return request
    | none, [] => throw (.wrong programForm .commandMissing)
    | none, name :: rest =>
      match Command.ofName? name with
      | none => readNoCommand name rest
      | some command =>
        (command.read ⟨a.has verboseOption, a.has jsonLogsOption⟩ t rest).mapError
          (.wrong command.form)

end SchemaTree
