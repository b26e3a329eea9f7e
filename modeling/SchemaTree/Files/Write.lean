import SchemaTree.Event
import SchemaTree.Files.FileTree
import SchemaTree.Settings

/-!
# Writing files

A file is written through a temporary file in its own folder, which then takes the place of the
file: so a write that fails leaves the file as it was. Output is only written over something that
exists if that was asked for. -/

namespace SchemaTree

namespace FileTree

/-- A name that no entry has: it is longer than all of them. -/
def freshName (t : FileTree) (name : String) : String :=
  let length := (String.join (t.entries.flatMap fun (l, _) => l)).length
  "." ++ name ++ "." ++ String.ofList (List.replicate length '0') ++ ".tmp"

/-- The number of bytes that the name of a temporary file has more than that of its file: two dots,
eight characters that make it fresh, and its ending. -/
def extraNameBytes : Nat := 14

end FileTree

namespace Filing

/-- Refuses the name of a file if there can be no temporary file for it. -/
def checkName (name : String) : Filing Unit := do
  if name.toList.contains '\x00' then throw .nullCharacter
  if FileTree.maxNameBytes < name.utf8ByteSize + FileTree.extraNameBytes then throw .nameTooLong

/-- Moves a file to where a path leads. A file there is replaced; a folder is not. -/
def moveTo (source : Location) (content : String) (p : Path) : Filing Unit := do
  if p.name?.isNone then throw .inUse
  let l ← locate p
  let t ← get
  if t.entryAt? l = some .folder then throw .isAFolder
  set ((t.erase source).put l (.file content))

/-- Writes a file through a temporary file, making the folders it needs. -/
def writeThrough (p : Path) (content : String) : Filing Unit := do
  makeFolders true p.parent
  let folder ← locate p.parent
  let name := p.name?.getD ""
  checkName name
  let t ← get
  let temporary := folder ++ [t.freshName name]
  set (t.put temporary (.file content))
  try moveTo temporary content p
  catch e => do
    modify (·.erase temporary)
    throw e

/-- Writes a file in place, making the folders it needs. -/
def writeInPlace (p : Path) (content : String) : Filing Unit := do
  makeFolders true p.parent
  let l ← locate p
  let t ← get
  if t.entryAt? l = some .folder then throw .isAFolder
  set (t.put l (.file content))

end Filing

/-! ## Output -/

/-- Why output is not written. -/
inductive WriteError where
  | file (error : FileError)
  /-- Something exists where the output goes. -/
  | outputExists (path : Path)
  /-- The settings of the output were replaced by a value or lost. -/
  | notSettings (missing : MissingAttribute)

/-- The wording of an error. -/
def WriteError.message : WriteError → String
  | .file e => e.message
  | .outputExists path =>
    "Output file already exists: " ++ path.text ++ ". Use --force to overwrite."
  | .notSettings missing => missing.message

/-- A step that writes output and reports it. -/
abbrev Writing (α : Type) := ExceptT WriteError (StateT FileTree Logged) α

namespace Writing

/-- Lifts a step on files. -/
def ofFiling (step : Filing α) : Writing α := do
  let (result, t) := step.run (← get)
  set t
  match result with
  | .ok a => return a
  | .error e => throw (.file e)

/-- Runs a step on a tree of files. -/
def run (step : Writing α) (t : FileTree) : Logged (Except WriteError α × FileTree) := step t

end Writing

namespace Path

/-- Writes a file through a temporary file. -/
def write (p : Path) (content : String) : Writing Unit := do
  .ofFiling (.writeThrough p content)
  monadLift (Logged.report (.wroteOutput p.text content.length))

/-- Refuses a path that leads to something. -/
def refuseExisting (p : Path) : Writing Unit := do
  let t ← get
  match t.has? p with
  | .ok true => throw (.outputExists p)
  | .ok false => return
  | .error e => throw (.file e)

/-- Writes a file where nothing exists. -/
def writeNew (p : Path) (content : String) : Writing Unit := do
  p.refuseExisting
  p.write content

end Path

/-- Whether the mode protects what exists. -/
def OutputMode.protects : OutputMode → Bool
  | .errorIfExists => true
  | .force | .undefined _ => false

/-- Writes output under settings. -/
def OutputSettings.write (settings : OutputSettings) (p : Path) (content : String) :
    Writing Unit := do
  if settings.mode.protects then p.refuseExisting
  if settings.atomicWrite.truthy then p.write content
  else .ofFiling (.writeInPlace p content)

/-- The settings of the output. A value that counts as false stands for the defaults. -/
def EmitterSettings.outputSettings? (settings : EmitterSettings) :
    Except WriteError OutputSettings :=
  match settings.output with
  | .record output => .ok output
  | .replaced value =>
    if value.truthy then .error (.notSettings ⟨value.typeWord, "mode"⟩) else .ok {}
  | .missing => .error (.notSettings ⟨"EmitterConfig", "output"⟩)

end SchemaTree
