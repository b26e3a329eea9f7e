import SchemaTree.Text.Parts

/-!
# Paths

A path is a sequence of steps from the root or from the working folder. A step leads into a named
entry or, as `..`, back up. Single dots and empty steps mean nothing and are dropped when a path is
read. Steps up are kept, since where they lead depends on the files: `a/../b` is no path unless `a`
is a folder. -/

namespace SchemaTree

/-- A path. -/
structure Path where
  /-- Whether the path starts at the root. -/
  absolute : Bool
  steps : List String
deriving DecidableEq, Repr

namespace Path

/-- The step up. -/
def up : String := ".."

/-- Reads a path. -/
def ofText (text : String) : Path :=
  ⟨text.toList.head? = some '/', (Text.parts '/' text).filter fun step => step ≠ "" ∧ step ≠ "."⟩

/-- The text of a path. -/
def text (p : Path) : String :=
  let steps := String.intercalate "/" p.steps
  if p.absolute then "/" ++ steps
  else if p.steps.isEmpty then "."
  else steps

/-- The path without its last step; a path without steps is its own parent. -/
def parent (p : Path) : Path := { p with steps := p.steps.dropLast }

theorem length_steps_parent_lt {p : Path} (h : p.steps ≠ []) :
    p.parent.steps.length < p.steps.length := by
  have : 0 < p.steps.length := List.length_pos_iff.mpr h
  simp only [parent, List.length_dropLast]
  omega

/-- The name of the entry that a path ends in, if its last step is one into an entry. -/
def name? (p : Path) : Option String :=
  match p.steps.getLast? with
  | some step => if step = up then none else some step
  | none => none

/-- Whether a path holds a null character, which no name can have. -/
def holdsNull (p : Path) : Bool := p.steps.any fun step => step.toList.contains '\x00'

/-- The location that a path names when a step up undoes the step before it, whatever the files. -/
def resolve (working : List String) (p : Path) : List String :=
  p.steps.foldl (fun here step => if step = up then here.dropLast else here ++ [step])
    (if p.absolute then [] else working)

/-- The path from the root to a location. -/
def toLocation (location : List String) : Path := ⟨true, location⟩

end Path

end SchemaTree
