import SchemaTree.Tree.Basic

/-!
# Shapes

A shape says which data is accepted and what becomes of it. Documents are built into shapes. A
reference stays a name within a shape and is looked up when data is validated, which is what makes
shapes that refer to themselves possible while every shape is a finite tree.

A record keeps for every field an attribute key and an external name. Data holds the field under its
external name, and so does what is written after validation.
-/

namespace SchemaTree

/-- The label by which failures mention a scalar type. -/
def ScalarType.label : ScalarType → String
  | .text => "str"
  | .number => "float"
  | .flag => "bool"
  | .moment => "function-before[iso_datetime_string(), datetime]"

/-- A field of a record, its shape apart. -/
structure FieldHead where
  /-- The attribute key. -/
  key : String
  /-- The external name. -/
  name : String
  /-- The value of an absent field; without one the field is required. -/
  default : Option Json

/-- The external name of a field where it is not its key. -/
def FieldHead.alias? (f : FieldHead) : Option String := if f.key = f.name then none else some f.name

/-- What data has to be like. -/
inductive Shape where
  | scalar (type : ScalarType)
  | literal (value : Scalar)
  | record (name : String) (documentation : Json) (fields : List (FieldHead × Shape))
  | union (options : List Shape)
  | anything
  /-- Whatever has this id. -/
  | reference (id : String)
  | list (element : Shape)
  | optional (inner : Shape)
  | described (inner : Shape) (description : Json)
deriving Inhabited

namespace Shape

/-- Attaches a description unless it counts as false. -/
def describedBy (description : Json) (shape : Shape) : Shape :=
  if description.truthy then .described shape description else shape

/-- A shape without its outermost descriptions. -/
def bare : Shape → Shape
  | .described inner _ => bare inner
  | shape => shape

/-- The outermost description of a shape. -/
def description? : Shape → Option Json
  | .described _ description => some description
  | _ => none

/-! ## Labels -/

mutual

/-- The label by which failures mention a shape. -/
def label : Shape → String
  | .scalar type => type.label
  | .literal (.text s) => "literal[" ++ (Scalar.text s).display ++ "]"
  | .literal value => "function-before[validate(), literal[" ++ value.display ++ "]]"
  | .record name _ _ => name
  | .union options => "union[" ++ String.intercalate "," (labels options) ++ "]"
  | .anything => "any"
  | .reference _ => "function-plain[validate()]"
  | .list element => "list[" ++ label element ++ "]"
  | .optional inner => "nullable[" ++ label inner ++ "]"
  | .described inner _ => label inner

/-- The labels of several shapes. -/
def labels : List Shape → List String
  | [] => []
  | shape :: rest => label shape :: labels rest

end

/-! ## Records -/

mutual

/-- The records in a shape, a record before those in its fields. -/
def records : Shape → List (String × Json × List (FieldHead × Shape))
  | .record name documentation fields =>
    (name, documentation, fields) :: recordsOfFields fields
  | .union options => recordsOfList options
  | .list inner | .optional inner | .described inner _ => records inner
  | _ => []

/-- The records in several fields. -/
def recordsOfFields : List (FieldHead × Shape) → List (String × Json × List (FieldHead × Shape))
  | [] => []
  | (_, shape) :: rest => records shape ++ recordsOfFields rest

/-- The records in several shapes. -/
def recordsOfList : List Shape → List (String × Json × List (FieldHead × Shape))
  | [] => []
  | shape :: rest => records shape ++ recordsOfList rest

end

end Shape

end SchemaTree
