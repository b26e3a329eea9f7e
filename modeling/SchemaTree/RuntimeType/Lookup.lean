import SchemaTree.RuntimeType.Basic
import SchemaTree.Text.Parts

/-!
# Looking runtime types up by reference

A schema to import is named by a reference `MODULE:ATTRIBUTE`. Both parts are dotted: the first
leads through modules, of which only packages hold others, and the second through the members of
what was reached before. Which modules exist is a parameter. A module is run when it is come to, and
a member may be computed when it is asked for; where either fails in a way of its own, so does the
look-up. -/

namespace SchemaTree

/-- Something that a reference can lead to. Asking for a member may fail otherwise than because it
is missing. -/
inductive Definition where
  | mk (qualifiedName? : Option String) (type : RuntimeType)
    (members : List (String × Except String Definition))

namespace Definition

/-- The name under which a definition knows itself. -/
def qualifiedName? : Definition → Option String
  | .mk name? _ _ => name?

/-- The type that is defined. -/
def type : Definition → RuntimeType
  | .mk _ type _ => type

/-- The members of a definition. -/
def members : Definition → List (String × Except String Definition)
  | .mk _ _ members => members

end Definition

/-- What comes of running a module. -/
inductive ModuleRun where
  | done
  /-- Something that the module imports cannot be. -/
  | cannotImport (reason : String)
  /-- The module fails in another way. -/
  | failed (problem : String)

/-- A module. -/
structure Module where
  name : String
  isPackage : Bool
  members : List (String × Except String Definition)
  run : ModuleRun := .done

/-- Why a reference leads nowhere. -/
inductive LookupError where
  | malformed (reference : String)
  /-- A module that does not exist; `package?` is the module it was looked for in that holds none.
  -/
  | noModule (moduleName missing : String) (package? : Option String)
  /-- A module on the way cannot be imported for a reason of its own. -/
  | notImportable (moduleName reason : String)
  | noMember (moduleName attributeName : String)
  /-- The name of a module starts with a dot. -/
  | relativeModule (moduleName : String)
  /-- A module or a member on the way fails in a way of its own. -/
  | failed (problem : String)

/-- The wording of an error. -/
def LookupError.message : LookupError → String
  | .malformed reference => "Expected MODULE:ATTRIBUTE, got " ++ Text.display reference
  | .noModule moduleName missing package? =>
    "Cannot import module " ++ Text.display moduleName ++ ": No module named " ++
      Text.display missing ++
      (match package? with
        | some package => "; " ++ Text.display package ++ " is not a package"
        | none => "")
  | .notImportable moduleName reason =>
    "Cannot import module " ++ Text.display moduleName ++ ": " ++ reason
  | .noMember moduleName attributeName =>
    "Module " ++ Text.display moduleName ++ " has no attribute " ++ Text.display attributeName
  | .relativeModule moduleName =>
    "the 'package' argument is required to perform a relative import for " ++
      Text.display moduleName
  | .failed problem => problem

/-- A reference, split at its first colon. -/
structure SchemaReference where
  moduleName : String
  attributeName : String

namespace SchemaReference

/-- Reads a reference; neither part may be empty. -/
def ofText? (reference : String) : Option SchemaReference :=
  let moduleName := reference.toList.takeWhile (· ≠ ':')
  let attributeName := (reference.toList.dropWhile (· ≠ ':')).drop 1
  if moduleName.isEmpty || attributeName.isEmpty then none
  else some ⟨String.ofList moduleName, String.ofList attributeName⟩

/-- The module at the end of a dotted name; `found` is the module that the steps before led to. -/
def findModule (moduleName : String) (modules : List Module) (found : Option Module) :
    List String → Except LookupError Module
  | [] =>
    match found with
    | some m => .ok m
    | none => .error (.noModule moduleName moduleName none)
  | step :: rest =>
    let name := match found with
      | some m => m.name ++ "." ++ step
      | none => step
    match found with
    | some ⟨package, false, _, _⟩ => .error (.noModule moduleName name (some package))
    | _ =>
      match modules.find? (·.name = name) with
      | none => .error (.noModule moduleName name none)
      | some m =>
        match m.run with
        | .cannotImport reason => .error (.notImportable moduleName reason)
        | .failed problem => .error (.failed problem)
        | .done => findModule moduleName modules (some m) rest

/-- The member at the end of a dotted name; `found` is what the steps before led to. -/
def findMember (r : SchemaReference) (members : List (String × Except String Definition))
    (found : Option Definition) : List String → Except LookupError Definition
  | [] =>
    match found with
    | some d => .ok d
    | none => .error (.noMember r.moduleName r.attributeName)
  | step :: rest =>
    match members.find? (·.1 = step) with
    | none => .error (.noMember r.moduleName r.attributeName)
    | some (_, .error problem) => .error (.failed problem)
    | some (_, .ok d) => findMember r d.members (some d) rest

/-- What a reference leads to. -/
def find (r : SchemaReference) (modules : List Module) : Except LookupError Definition :=
  if r.moduleName.startsWith "." then .error (.relativeModule r.moduleName)
  else do
    let m ← findModule r.moduleName modules none (Text.parts '.' r.moduleName)
    findMember r m.members none (Text.parts '.' r.attributeName)

end SchemaReference

/-- What a reference in text form leads to. -/
def lookUp (modules : List Module) (reference : String) : Except LookupError Definition :=
  match SchemaReference.ofText? reference with
  | some r => r.find modules
  | none => .error (.malformed reference)

end SchemaTree
