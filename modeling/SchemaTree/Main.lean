import SchemaTree.Command.Run

/-!
# The command line

The program reads from disk what its arguments can name, runs on that, and then makes the changes of
the run on disk. It knows of no modules to import from and of no formatting tools.
-/

namespace SchemaTree

/-- The location of the folder in which the program runs. -/
def workingLocation : IO Location := do
  return (Path.ofText (← IO.currentDir).toString).steps

/-- What an argument can name: itself, the value of a long option, or the value of a short one. -/
def nameable (argument : String) : List String :=
  [argument, String.ofList ((argument.toList.dropWhile (· ≠ '=')).drop 1),
    String.ofList (argument.toList.drop 2)]

/-- What stands on disk at a location whose parent is a folder. -/
def probe (l : Location) : IO (Option Entry) := do
  try
    return some (.file (← IO.FS.readFile (Path.toLocation l).text))
  catch
    | .noFileOrDirectory .. => return none
    | _ => return some .folder

/-- Adds what stands on disk at a location and on the way to it. -/
def observe (t : FileTree) (l : Location) : IO FileTree := do
  let mut t := t
  for depth in List.range l.length do
    let place := l.take (depth + 1)
    if t.entryAt? place.dropLast = some .folder then
      match ← probe place with
      | some e => t := t.put place e
      | none => pure ()
  return t

/-- The stem of the ids of a run, from random bytes. -/
def freshStem : IO String := do
  let bytes ← IO.getRandomBytes 8
  let digits := bytes.toList.flatMap fun byte => Text.hex 2 byte.toNat
  let part (start length : Nat) := String.ofList ((digits.drop start).take length)
  return part 0 8 ++ "-" ++ part 8 4 ++ "-4" ++ part 12 3 ++ "-8" ++ part 13 3 ++ "-"

/-- Makes the changes of a run on disk. -/
def makeChanges (before after : FileTree) : IO Unit := do
  for (l, e) in after.entries.reverse do
    if before.entryAt? l ≠ some e then
      let path := (Path.toLocation l).text
      match e with
      | .folder => IO.FS.createDirAll path
      | .file content =>
        let temporary := path ++ ".tmp"
        IO.FS.writeFile temporary content
        IO.FS.rename temporary path

end SchemaTree

open SchemaTree in
/-- Runs the program. -/
def main (arguments : List String) : IO UInt32 := do
  let working ← workingLocation
  let places := working :: (arguments.flatMap nameable).map fun argument =>
    (Path.ofText argument).resolve working
  let files ← places.foldlM observe ⟨working, []⟩
  let stem ← freshStem
  let (outcome, world) := runCommandLine ⟨{}, []⟩ arguments ⟨files, { stem }⟩
  makeChanges files world.files
  IO.print outcome.output
  IO.eprint outcome.errors
  match outcome.breakdown with
  | some breakdown => IO.eprintln breakdown.message
  | none => pure ()
  return outcome.status.toUInt32
