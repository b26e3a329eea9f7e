import SchemaTree.Text.Documentation
import SchemaTree.Tree.Basic

/-!
# Schema views

An importer sees a schema of any library as a view: a finite tree that says what the schema is, as
far as documents can express it, and how it is described. Three forms wrap another view, and a form
that documents cannot express is only known to be other. An opaque schema shows nothing but how it
responds to three samples.

Literals and defaults are values of a running program, of which only some can be written as JSON.
Nor has a program to let itself be looked at: making a default may fail, and so may looking at a
schema, which does not end if the schema is a part of itself. -/

namespace SchemaTree

/-! ## Samples -/

/-- The samples that opaque schemas are tried with. -/
inductive Sample where
  | text
  | number
  | flag
deriving DecidableEq, Repr

namespace Sample

/-- The samples in the order in which they are tried. -/
def all : List Sample := [text, number, flag]

/-- The value of a sample. -/
def value : Sample → Json
  | text => .str "test"
  | number => .int 123
  | flag => .bool true

/-- The scalar type of the schemas that a sample stands for. -/
def type : Sample → ScalarType
  | text => .text
  | number => .number
  | flag => .flag

end Sample

/-- How a schema responds to a sample. -/
inductive Response where
  | accepts
  /-- The sample is rejected, possibly with an error that is worth a report. -/
  | rejects (errorWord : Option String)
deriving DecidableEq, Repr

/-! ## Values -/

/-- A value of a running program that cannot be written as JSON. -/
structure ForeignValue where
  /-- How the value shows itself. -/
  shown : String
  /-- What writing it fails with. -/
  problem : String
deriving DecidableEq, Repr

/-- A value that a schema holds. -/
inductive SchemaValue where
  /-- A value, as it is written. -/
  | json (value : Json)
  | foreign (value : ForeignValue)

namespace SchemaValue

/-- The JSON value that stands for a value. A foreign one has null in its place. -/
def toJson : SchemaValue → Json
  | json value => value
  | foreign _ => .null

/-- The value, if it is foreign. -/
def foreign? : SchemaValue → Option ForeignValue
  | json _ => none
  | foreign value => some value

end SchemaValue

/-! ## Views -/

/-- The documentation of a schema is no text. -/
structure DocumentationNotText where
  typeWord : String
deriving DecidableEq, Repr

/-- The wording of the error. -/
def DocumentationNotText.message (e : DocumentationNotText) : String :=
  "'" ++ e.typeWord ++ "' object has no attribute 'expandtabs'"

/-- A description; null if there is none. -/
abbrev Description := Except DocumentationNotText Json

/-- The description that a documentation text makes. A value that counts as false makes none. -/
def Description.ofDocumentation (documentation : Json) : Description :=
  if documentation.truthy then
    match documentation with
    | .str s => .ok (.str (String.ofList (Text.cleanDocumentation s.toList)))
    | value => .error ⟨value.typeWord⟩
  else .ok .null

/-- A description, or if it counts as false another one. -/
def Description.orElse (description : Json) (fallback : Description) : Description :=
  if description.truthy then .ok description else fallback

mutual

/-- A schema as an importer sees it. -/
inductive SchemaView where
  | mk (description : Description) (form : SchemaForm)

/-- What a schema is. -/
inductive SchemaForm where
  | scalar (type : ScalarType)
  | literal (value : SchemaValue)
  | object (properties : List (String × SchemaView))
  | union (options : List SchemaView)
  | array (element : SchemaView)
  | optional (inner : SchemaView)
  /-- The inner schema, with a value in place of absent data. -/
  | default (inner : SchemaView) (value : SchemaValue)
  /-- The inner schema, with a default that cannot be made. -/
  | failingDefault (inner : SchemaView) (problem : String)
  /-- Null alone is accepted. -/
  | null
  | any
  /-- A schema that documents cannot express. -/
  | other
  | opaqueTo (respond : Sample → Response)
  /-- A schema with a tag that does not exist. -/
  | mistagged (tag : Json)
  /-- A schema that cannot be looked at. -/
  | failing (problem : String)
  /-- An object that this schema is a part of. -/
  | endless

end

namespace SchemaView

/-- The description of a schema. -/
def description : SchemaView → Description
  | .mk description _ => description

/-- What a schema is. -/
def form : SchemaView → SchemaForm
  | .mk _ form => form

/-- A schema without a description. -/
def plain (form : SchemaForm) : SchemaView := .mk (.ok .null) form

end SchemaView

/-! ## Tags -/

/-- The tag of a scalar type. -/
def ScalarType.tag (type : ScalarType) : String := type.kind.name

/-- The tag of a form; an opaque schema has none, nor one that cannot be looked at. -/
def SchemaForm.tag? : SchemaForm → Option String
  | scalar type => some type.tag
  | literal _ => some "literal"
  | object _ => some "object"
  | union _ => some "union"
  | array _ => some "array"
  | optional _ => some "optional"
  | default _ _ | failingDefault _ _ => some "default"
  | null => some "null"
  | any => some "any"
  | other => some "other"
  | opaqueTo _ => none
  | mistagged tag => tag.asString?
  | failing _ => none
  | endless => some "object"

/-- The tag of a view. -/
def SchemaView.tag? (view : SchemaView) : Option String := view.form.tag?

end SchemaTree
