import SchemaTree.Document.Encode
import SchemaTree.Event
import SchemaTree.Import.View
import SchemaTree.Tree.IdSupply

/-!
# Importing schemas

Every view but that of null becomes an item. The three wrapping forms become marks on the item of
the view they wrap: of nested wrappings of one sort only one mark remains, and of nested defaults
the outermost. A description counts from the inside out, the first that is not empty.

A schema of a form that documents cannot express becomes a text, and an opaque schema a scalar of
the first sample that it accepts. An item has no place for a foreign value: it gets null there, and
the value is kept beside it until the document is written, which then fails. -/

namespace SchemaTree

/-- Why a schema cannot be imported. -/
inductive ImportError where
  | mistagged (tag : Json)
  | documentation (error : DocumentationNotText)
  /-- The program of the schema fails where it is looked at. -/
  | failed (problem : String)
  /-- A schema is a part of itself. -/
  | endless

/-- The wording of an error. -/
def ImportError.message : ImportError → String
  | .mistagged tag => tag.display ++ " is not a valid TypeTag"
  | .documentation e => e.message
  | .failed problem => problem
  | .endless => "maximum recursion depth exceeded"

/-- A step of an import: it draws on a supply of ids, reports events and may fail. -/
abbrev Importing (α : Type) := ExceptT ImportError (StateT IdSupply Logged) α

/-- Reports an event. -/
def Importing.report (event : Event) : Importing Unit := monadLift (Logged.report event)

/-- Runs an import. -/
def Importing.run (importing : Importing α) (ids : IdSupply) :
    Logged (Except ImportError α × IdSupply) :=
  importing ids

/-! ## Items -/

/-- An item that was imported, with the foreign values for which it has null. -/
structure Imported where
  item : Item
  /-- The default, if it is foreign. -/
  foreignDefault : Option ForeignValue := none
  /-- The foreign values in the item besides its default. -/
  foreignInside : List ForeignValue := []

/-- The foreign values of an item, its default before the others. -/
def Imported.foreign (x : Imported) : List ForeignValue :=
  x.foreignDefault.toList ++ x.foreignInside

/-- A new item of a kind. -/
def importedItem (name : String) (kind : Kind) (fields options : Option (List Imported))
    (literal : SchemaValue) : Importing Imported := do
  let id ← modifyGet IdSupply.fresh
  let parts := fields.getD [] ++ options.getD []
  return {
    item := .mk {
      id, name, kind
      literal := literal.toJson
      required := true
      isArray := false
      description := .null
      defaultValue := .null
      hasDefault := false
      reference := none } (fields.map (·.map Imported.item)) (options.map (·.map Imported.item))
    foreignInside := parts.flatMap Imported.foreign ++ literal.foreign?.toList }

/-- A new item without parts. -/
def importedLeaf (name : String) (kind : Kind) : Importing Imported :=
  importedItem name kind none none (.json .null)

/-- Changes the attributes of an item. -/
def Item.mark (f : Attributes → Attributes) : Item → Item
  | .mk a fields options => .mk (f a) fields options

namespace Imported

/-- Changes the attributes of an item. -/
def mark (f : Attributes → Attributes) (x : Imported) : Imported := { x with item := x.item.mark f }

/-- Marks an item as optional. -/
def markOptional : Imported → Imported := mark fun a => { a with required := false }

/-- Marks an item as an array. -/
def markArray : Imported → Imported := mark fun a => { a with isArray := true }

/-- Gives an item a default, in place of one that it has. -/
def markDefault (value : SchemaValue) (x : Imported) : Imported :=
  { x.mark fun a => { a with defaultValue := value.toJson, hasDefault := true } with
    foreignDefault := value.foreign? }

end Imported

/-- Describes an item that has no description yet. -/
def describeItem (description : Description) (x : Imported) : Importing Imported :=
  if x.item.attributes.description.truthy then return x
  else
    match description with
    | .error e => throw (.documentation e)
    | .ok d => return if d.truthy then x.mark fun a => { a with description := d } else x

/-! ## Opaque schemas -/

/-- The scalar type of the first sample that is accepted; text if there is none. -/
def classifyBySamples (respond : Sample → Response) : List Sample → Importing ScalarType
  | [] => return .text
  | sample :: rest =>
    match respond sample with
    | .accepts => return sample.type
    | .rejects none => classifyBySamples respond rest
    | .rejects (some errorWord) => do
      Importing.report (.sampleRejected sample.value.display errorWord)
      classifyBySamples respond rest

/-- Imports an opaque schema. -/
def importOpaque (respond : Sample → Response) (name : String) : Importing Imported := do
  let type ← classifyBySamples respond Sample.all
  Importing.report (.classifiedBySample name type.kind.name)
  importedLeaf name type.kind

/-! ## Views -/

/-- The name of the option at an index. -/
def optionName (index : Nat) : String := "option_" ++ toString (index + 1)

/-- The items of the views that have one, in order. -/
def consSome : Option α → List α → List α
  | none, rest => rest
  | some a, rest => a :: rest

mutual

/-- Imports a view under a name; null alone has no item. -/
def SchemaView.toItem? (name : String) : SchemaView → Importing (Option Imported)
  | .mk description form =>
    match form with
    | .mistagged tag => throw (.mistagged tag)
    | .failing problem => throw (.failed problem)
    | .endless => throw .endless
    | .opaqueTo respond => some <$> importOpaque respond name
    | .null => do
      Importing.report (.nullOnly name)
      return none
    | form => do some <$> describeItem description (← SchemaForm.toItem name form)

/-- Imports a form under a name, without its description. -/
def SchemaForm.toItem (name : String) : SchemaForm → Importing Imported
  | .scalar type => importedLeaf name type.kind
  | .literal value => importedItem name .literal none none value
  | .object properties => do
    importedItem name .object (some (← SchemaForm.propertyItems properties)) none (.json .null)
  | .union options => do
    importedItem name .union none (some (← SchemaForm.optionItems 0 options)) (.json .null)
  | .array element => do
    match ← element.toItem? name with
    | some x => return x.markArray
    | none => return (← importedLeaf name .string).markArray
  | .optional inner => do
    match ← inner.toItem? name with
    | some x => return x.markOptional
    | none => return (← importedLeaf name .string).markOptional
  | .default inner value => do
    match ← inner.toItem? name with
    | some x => return x.markDefault value
    | none => importedLeaf name .string
  | .failingDefault inner problem => do
    match ← inner.toItem? name with
    | some _ => throw (.failed problem)
    | none => importedLeaf name .string
  | form => do
    Importing.report (.unhandledTag name (form.tag?.getD ""))
    importedLeaf name .string

/-- Imports the properties of an object. -/
def SchemaForm.propertyItems : List (String × SchemaView) → Importing (List Imported)
  | [] => return []
  | (name, view) :: rest => do
    let x ← view.toItem? name
    let rest ← SchemaForm.propertyItems rest
    return consSome x rest

/-- Imports the options of a union from an index on. -/
def SchemaForm.optionItems (index : Nat) : List SchemaView → Importing (List Imported)
  | [] => return []
  | view :: rest => do
    let x ← view.toItem? (optionName index)
    let rest ← SchemaForm.optionItems (index + 1) rest
    return consSome x rest

end

/-! ## Documents -/

/-- A document that was imported, with the foreign values for which it has null. -/
structure ImportedDocument where
  document : Document
  foreign : List ForeignValue := []

/-- Writes an imported document, unless there is a foreign value in it. Where a number is too long
as well, that is not what is reported. -/
def ImportedDocument.dump (d : ImportedDocument) (indent : Option Nat) : Except DumpError String :=
  match d.foreign with
  | [] => d.document.dump indent
  | value :: _ => .error (.foreign value.problem)

/-- Imports a view as the root of a document. Only an object has fields; anything else makes an
empty document. -/
def SchemaView.toDocument (view : SchemaView) : Importing ImportedDocument :=
  match view.form with
  | .object properties => do
    let xs ← SchemaForm.propertyItems properties
    return ⟨⟨xs.map Imported.item⟩, xs.flatMap Imported.foreign⟩
  | .mistagged tag => throw (.mistagged tag)
  | .failing problem => throw (.failed problem)
  | .endless => throw .endless
  | _ => do
    Importing.report .rootNotObject
    return { document := ⟨[]⟩ }

end SchemaTree
