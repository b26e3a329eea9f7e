import SchemaTree.Command.Invocation
import SchemaTree.Document.Encode
import SchemaTree.Document.Load
import SchemaTree.Files.Write
import SchemaTree.Import.Read
import SchemaTree.RuntimeType.Lookup
import SchemaTree.RuntimeType.View
import SchemaTree.Shape.Report

/-!
# Running a command line

A run reads and writes a tree of files, prints, and ends in one of a few ways. Bad documents, bad
data, bad references and output that exists are reported with a message; settings that turn out to
be unusable late, whatever a tool or an imported module fails at, and files that cannot be read or
written break the run off instead.

Texts are made of Unicode scalar values, so an escaped surrogate that has no partner cannot be read.
What a run does with such a file is not described here; the run breaks off in a way of its own
(`Breakdown.loneSurrogate`). -/

namespace SchemaTree

/-- What a run depends on besides its arguments and files. -/
structure Surroundings where
  tools : Tools
  modules : List Module

/-- What a run changes. -/
structure World where
  files : FileTree
  ids : IdSupply

/-- What breaks a run off. -/
inductive Breakdown where
  | file (error : FileError)
  /-- A whole number in a file has too many digits. -/
  | tooLong (digits : Nat)
  /-- A file has a surrogate without its partner. -/
  | loneSurrogate
  /-- What is coerced to text has a number with too many digits. -/
  | decoding (error : DecodeError)
  | emission (error : EmitError)
  | modelName (error : NameFault)
  | output (error : WriteError)
  | reference (error : LookupError)
  | importing (error : ImportError)
  | dumping (error : DumpError)
  /-- References are followed without end. -/
  | unending

/-- The wording of a breakdown. -/
def Breakdown.message : Breakdown → String
  | .file e => e.message
  | .tooLong digits => (Json.ParseError.tooLong digits).message
  | .loneSurrogate => Json.ParseError.loneSurrogate.message
  | .decoding e => e.message
  | .emission e => e.message
  | .modelName e => e.message
  | .output e => e.message
  | .reference e => e.message
  | .importing e => e.message
  | .dumping e => e.message
  | .unending => "maximum recursion depth exceeded"

/-- Why a run ends early. -/
inductive Ending where
  | misused (form : CommandForm) (error : UsageError)
  /-- The run is refused with a message. -/
  | refused (message : String)
  /-- The data do not fit the document. -/
  | invalid (report : String)
  | broken (breakdown : Breakdown)

/-- A step of a run. -/
abbrev Running (α : Type) := ExceptT Ending (StateT World Logged) α

namespace Running

/-- Runs a step. -/
def run (step : Running α) (w : World) : Logged (Except Ending α × World) := step w

/-- Lifts a step that reports events. -/
def ofLogged (step : Logged α) : Running α := monadLift step

/-- A result, or the end of the run. -/
def ofExcept (ending : ε → Ending) : Except ε α → Running α
  | .ok a => return a
  | .error e => throw (ending e)

/-- The content of a file. -/
def readFile (p : Path) : Running String := do
  let w ← get
  ofExcept (fun e => .broken (.file e)) (w.files.read p)

/-- Loads a document. -/
def load (p : Path) : Running Document := do
  let content ← readFile p
  let w ← get
  let (result, ids) ← ofLogged (loadDocument p.text content w.ids)
  set { w with ids }
  ofExcept (fun
    | .tooLong digits => .broken (.tooLong digits)
    | .loneSurrogate => .broken .loneSurrogate
    | .undecodable e@⟨_, .tooLong⟩ => .broken (.decoding e)
    | e => .refused e.message) result

/-- Reads the data of a check. -/
def loadData (p : Path) : Running Json := do
  let content ← readFile p
  ofExcept (fun
    | .malformed fault => .refused (invalidJsonMessage p.text fault)
    | .tooLong digits => .broken (.tooLong digits)
    | .loneSurrogate => .broken .loneSurrogate) (parseFile content)

/-- Reads settings from a file; without a file all settings have their defaults. -/
def loadSettings (command : Command) (read : Json → Except SettingsError α) (defaults : α) :
    Option Path → Running α
  | none => return defaults
  | some p => do
    let content ← readFile p
    let bad (reason : String) : Ending := .misused command.form (.badSettings p.text reason)
    let value ← ofExcept (fun
      | .loneSurrogate => .broken .loneSurrogate
      | e => bad e.message) (parseFile content)
    ofExcept (fun e => bad e.message) (read value)

/-- Writes output. -/
def write (settings : OutputSettings) (p : Path) (content : String) : Running Unit := do
  let w ← get
  let (result, files) ← ofLogged ((settings.write p content).run w.files)
  set { w with files }
  ofExcept (fun
    | e@(.outputExists _) => .refused e.message
    | .file e => .broken (.file e)
    | e => .broken (.output e)) result

end Running

/-! ## The commands -/

/-- Settings that write over what exists. -/
def EmitterSettings.forcing (settings : EmitterSettings) : Except WriteError EmitterSettings :=
  match settings.output with
  | .record output => .ok (settings.set "output" (.output { output with mode := .force }))
  | .replaced value => .error (.notSettings ⟨value.typeWord, "mode"⟩)
  | .missing => .error (.notSettings ⟨"EmitterConfig", "output"⟩)

/-- A text that ends in a line feed. -/
def endLine (s : String) : String := if s.endsWith "\n" then s else s ++ "\n"

namespace Running

/-- Runs a check. -/
def check (settings : Option Path) (document data : Path) : Running String := do
  let settings ← loadSettings .check BuilderSettings.ofJson {} settings
  let d ← load document
  let m ← ofExcept (fun e => .broken (.modelName e)) (← ofLogged (d.build settings))
  let value ← loadData data
  match ← ofLogged (m.validate value) with
  | none => throw (.broken .unending)
  | some (.error failures) => throw (.invalid (failureReport m.shape.label failures))
  | some (.ok datum) => return (m.shape.write .straight datum).print .pretty ++ "\n"

/-- Runs an emission. -/
def emit (surroundings : Surroundings) (settings : Option Path) (language : Option Language)
    (force : Bool) (document output : Path) : Running Unit := do
  let settings ← loadSettings .emit EmitterSettings.ofJson {} settings
  let settings := match language with
    | some language => settings.set "language" (.value (.str language.name))
    | none => settings
  let settings ← ofExcept (fun e => .broken (.output e))
    (if force then settings.forcing else .ok settings)
  let d ← load document
  let code ← ofExcept (fun e => .broken (.emission e))
    (← ofLogged (settings.emit surroundings.tools d))
  let outputSettings ← ofExcept (fun e => .broken (.output e)) settings.outputSettings?
  write outputSettings output (endLine code)

/-- Runs an import. -/
def importSchema (surroundings : Surroundings) (force : Bool) (reference : String) (output : Path) :
    Running Unit := do
  let found ← ofExcept (fun
    | e@(.relativeModule _) | e@(.failed _) => .broken (.reference e)
    | e => .refused e.message) (lookUp surroundings.modules reference)
  let w ← get
  let (result, ids) ← ofLogged (found.type.view.toDocument.run w.ids)
  set { w with ids }
  let d ← ofExcept (fun e => .broken (.importing e)) result
  let text ← ofExcept (fun e => .broken (.dumping e)) (d.dump (some 2))
  write { mode := if force then .force else .errorIfExists } output (text ++ "\n")

/-- Runs a command and returns what it prints. -/
def invoke (surroundings : Surroundings) : Invocation → Running String
  | .check settings document data => check settings document data
  | .emit settings language force document output => do
    emit surroundings settings language force document output
    return ""
  | .importSchema force reference output => do
    importSchema surroundings force reference output
    return ""

end Running

/-! ## Outcomes -/

/-- What a run leaves for the one who started it. -/
structure Outcome where
  status : Nat
  output : String
  errors : String
  breakdown : Option Breakdown := none

namespace Outcome

/-- The outcome of a run that ends early. -/
def ofEnding : Ending → Outcome
  | .misused f e => ⟨2, "", e.report f, none⟩
  | .refused message => ⟨1, "", "Error: " ++ message ++ "\n", none⟩
  | .invalid report => ⟨1, "", report ++ "\n", none⟩
  | .broken breakdown => ⟨1, "", "", some breakdown⟩

/-- The outcome of a run. -/
def ofResult : Except Ending String → Outcome
  | .ok output => ⟨0, output, "", none⟩
  | .error ending => ofEnding ending

end Outcome

/-- The version of the program. -/
def programVersion : String := "0.1.0"

/-- Runs a command line. The log comes before any other message. -/
def runCommandLine (surroundings : Surroundings) (arguments : List String) (w : World) :
    Outcome × World :=
  match readCommandLine w.files arguments with
  | .error misuse => (⟨2, "", misuse.report, none⟩, w)
  | .ok (.help text) => (⟨0, text, "", none⟩, w)
  | .ok .version => (⟨0, programName ++ ", version " ++ programVersion ++ "\n", "", none⟩, w)
  | .ok (.run log invocation) =>
    let ⟨(result, w), events⟩ := (Running.invoke surroundings invocation).run w
    let outcome := Outcome.ofResult result
    ({ outcome with errors := log.log events ++ outcome.errors }, w)

end SchemaTree
