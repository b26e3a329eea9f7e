import SchemaTree.Files.Path

/-!
# Files and folders

A tree of files is a finite table of entries by location: the names of the folders from the root on,
and the name of the entry. The root is always a folder. Looking an entry up goes through this table
alone, so the effect of an operation is what it does to `entryAt?`.

The name of an entry has a greatest length (`FileTree.maxNameBytes`). Paths may be as long as one
likes: the bound that some systems put on a whole path is not part of this library, nor are
permissions, links and full disks.

Operations can fail half way, and what was done before the failure stays done: `Filing` is a step
that always returns the files as it leaves them. -/

namespace SchemaTree

/-- Where an entry is, from the root on. -/
abbrev Location := List String

/-- What stands at a location. -/
inductive Entry where
  | folder
  | file (content : String)
deriving DecidableEq, Repr

/-- Why an operation on files fails. -/
inductive FileError where
  /-- A folder on the way or the file itself does not exist. -/
  | notFound
  /-- An entry on the way is a file. -/
  | notAFolder
  /-- Something exists where a folder is to be made. -/
  | alreadyThere
  /-- A folder stands where a file is needed. -/
  | isAFolder
  /-- A file cannot take the place of a folder that a path reaches by going up or not at all. -/
  | inUse
  /-- The name of an entry has too many bytes. -/
  | nameTooLong
  /-- A path holds a null character. -/
  | nullCharacter
deriving DecidableEq, Repr

/-- The wording of an error. -/
def FileError.message : FileError → String
  | .notFound => "No such file or directory"
  | .notAFolder => "Not a directory"
  | .alreadyThere => "File exists"
  | .isAFolder => "Is a directory"
  | .inUse => "Device or resource busy"
  | .nameTooLong => "File name too long"
  | .nullCharacter => "embedded null byte"

/-- All files, and the folder where relative paths start. -/
structure FileTree where
  working : Location
  entries : List (Location × Entry)

namespace FileTree

/-- What stands at a location. -/
def entryAt? (t : FileTree) (l : Location) : Option Entry :=
  if l = [] then some .folder else (t.entries.find? (·.1 = l)).map (·.2)

/-- The files without the entry at a location. -/
def erase (t : FileTree) (l : Location) : FileTree :=
  { t with entries := t.entries.filter (·.1 ≠ l) }

/-- The files with another entry at a location. -/
def put (t : FileTree) (l : Location) (e : Entry) : FileTree :=
  { t with entries := (l, e) :: (t.erase l).entries }

@[simp] theorem entryAt?_root (t : FileTree) : t.entryAt? [] = some .folder := by simp [entryAt?]

theorem entryAt?_erase (t : FileTree) {l : Location} (h : l ≠ []) (k : Location) :
    (t.erase l).entryAt? k = if k = l then none else t.entryAt? k := by
  by_cases hk : k = l
  · subst hk
    simp [entryAt?, h, erase, List.find?_filter]
  · have hp : (fun a : Location × Entry =>
        decide (decide (a.1 ≠ l) = true ∧ decide (a.1 = k) = true)) =
        fun a => decide (a.1 = k) := by
      funext a
      by_cases ha : a.1 = k
      · simp [ha, hk]
      · simp [ha]
    simp only [entryAt?, erase, List.find?_filter, hp, hk, if_false]

theorem entryAt?_put (t : FileTree) {l : Location} (h : l ≠ []) (e : Entry) (k : Location) :
    (t.put l e).entryAt? k = if k = l then some e else t.entryAt? k := by
  by_cases hk : k = l
  · subst hk
    simp [entryAt?, h, put]
  · have := t.entryAt?_erase h k
    by_cases hr : k = []
    · simp [hr, Ne.symm h]
    · simp only [entryAt?, hr, hk, if_false] at this
      simp [entryAt?, put, hk, hr, Ne.symm hk, this]

/-! ## Following paths -/

/-- The number of bytes that the name of an entry may have. -/
def maxNameBytes : Nat := 255

/-- Follows steps from a location. Every location on the way has to be a folder; the last one need
not exist. -/
def follow (t : FileTree) (here : Location) : List String → Except FileError Location
  | [] => .ok here
  | step :: rest =>
    match t.entryAt? here with
    | some .folder =>
      if maxNameBytes < step.utf8ByteSize then .error .nameTooLong
      else t.follow (if step = Path.up then here.dropLast else here ++ [step]) rest
    | some (.file _) => .error .notAFolder
    | none => .error .notFound

/-- The location that a path leads to. -/
def locate (t : FileTree) (p : Path) : Except FileError Location :=
  if p.holdsNull then .error .nullCharacter
  else t.follow (if p.absolute then [] else t.working) p.steps

/-- What a path leads to. -/
def find? (t : FileTree) (p : Path) : Option Entry :=
  match t.locate p with
  | .ok l => t.entryAt? l
  | .error _ => none

/-- Whether a path leads to something. -/
def has (t : FileTree) (p : Path) : Bool := (t.find? p).isSome

/-- Whether a path leads to something, unless that cannot even be asked. -/
def has? (t : FileTree) (p : Path) : Except FileError Bool :=
  match t.locate p with
  | .error .nameTooLong => .error .nameTooLong
  | _ => .ok (t.has p)

/-- Whether a path leads to a folder. -/
def hasFolder (t : FileTree) (p : Path) : Bool := t.find? p = some .folder

/-- The content of the file that a path leads to. -/
def read (t : FileTree) (p : Path) : Except FileError String :=
  match t.locate p with
  | .error e => .error e
  | .ok l =>
    match t.entryAt? l with
    | some (.file content) => .ok content
    | some .folder => .error .isAFolder
    | none => .error .notFound

end FileTree

/-! ## Steps -/

/-- A step that changes files and may fail, keeping what it has done. -/
abbrev Filing (α : Type) := ExceptT FileError (StateM FileTree) α

/-- Runs a step on a tree of files. -/
def Filing.run (step : Filing α) (t : FileTree) : Except FileError α × FileTree := step t

namespace Filing

/-- The location that a path leads to. -/
def locate (p : Path) : Filing Location := do
  match (← get).locate p with
  | .ok l => return l
  | .error e => throw e

/-- Makes a folder whose parent exists. -/
def makeFolder (p : Path) : Filing Unit := do
  let l ← locate p
  let t ← get
  match t.entryAt? l with
  | some _ => throw .alreadyThere
  | none => set (t.put l .folder)

/-- Lets an error pass if there is a folder already, and folders may exist. -/
def acceptFolder (mayExist : Bool) (p : Path) (e : FileError) : Filing Unit := do
  let t ← get
  if mayExist && t.hasFolder p then return else throw e

/-- Makes a folder. If its parent is missing, the parent is made first, and then the folder is tried
once more. -/
def makeFolders (mayExist : Bool) (p : Path) : Filing Unit := do
  let t ← get
  match (makeFolder p).run t with
  | (.ok _, t) => set t
  | (.error .notFound, t) =>
    set t
    if h : p.steps = [] then throw .notFound
    else
      have : p.parent.steps.length < p.steps.length := Path.length_steps_parent_lt h
      makeFolders true p.parent
      let t ← get
      match (makeFolder p).run t with
      | (.ok _, t) => set t
      | (.error .notFound, _) => throw .notFound
      | (.error e, _) => acceptFolder mayExist p e
  | (.error e, _) => acceptFolder mayExist p e
termination_by p.steps.length

end Filing

end SchemaTree
