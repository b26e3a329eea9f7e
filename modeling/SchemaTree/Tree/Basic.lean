import SchemaTree.Json.Scalar

/-!
# Schema trees

A schema is a tree of items under a root. An item has a kind, attributes that any kind may carry,
and two optional lists of children: `fields`, used by objects, and `options`, used by unions. An
item with a reference stands for another item, named by its id; references are edges by name and are
resolved by look-up, so the tree itself stays a tree.

Absent and empty lists are told apart, as are an absent default and a null one, since documents do.
-/

namespace SchemaTree

/-- The id of the root. -/
def rootId : String := "root"

/-! ## Kinds -/

/-- The names of the seven kinds. -/
def kindNames : List String :=
  ["string", "number", "boolean", "datetime", "literal", "object", "union"]

/-- The kind of an item: one of seven, or any other name. -/
inductive Kind where
  | string
  | number
  | boolean
  | datetime
  | literal
  | object
  | union
  | other (name : String) (unknown : name ∉ kindNames)
deriving DecidableEq

namespace Kind

/-- The name of a kind. -/
def name : Kind → String
  | string => "string"
  | number => "number"
  | boolean => "boolean"
  | datetime => "datetime"
  | literal => "literal"
  | object => "object"
  | union => "union"
  | other name _ => name

/-- The kind of a name. -/
def ofName (name : String) : Kind :=
  if h₁ : name = "string" then .string
  else if h₂ : name = "number" then .number
  else if h₃ : name = "boolean" then .boolean
  else if h₄ : name = "datetime" then .datetime
  else if h₅ : name = "literal" then .literal
  else if h₆ : name = "object" then .object
  else if h₇ : name = "union" then .union
  else .other name (by simp [kindNames, *])

/-- Whether a kind is one of the seven. -/
def isKnown : Kind → Bool
  | other .. => false
  | _ => true

@[simp] theorem ofName_name (kind : Kind) : ofName kind.name = kind := by
  cases kind with
  | other name unknown =>
    simp only [kindNames, List.mem_cons, List.not_mem_nil, or_false, not_or] at unknown
    simp [ofName, Kind.name, unknown]
  | _ => simp [ofName, Kind.name]

@[simp] theorem name_ofName (s : String) : (ofName s).name = s := by
  unfold ofName
  repeat' split
  all_goals first | exact (by assumption : s = _).symm | rfl

end Kind

/-- The kinds of values without parts, literals apart. -/
inductive ScalarType where
  | text
  | number
  | flag
  | moment
deriving DecidableEq, Repr

/-- The kind of a scalar type. -/
def ScalarType.kind : ScalarType → Kind
  | .text => .string
  | .number => .number
  | .flag => .boolean
  | .moment => .datetime

/-- The scalar type of a kind, if it is the kind of one. -/
def Kind.scalarType? : Kind → Option ScalarType
  | .string => some .text
  | .number => some .number
  | .boolean => some .flag
  | .datetime => some .moment
  | _ => none

@[simp] theorem Kind.scalarType?_kind (t : ScalarType) : t.kind.scalarType? = some t := by
  cases t <;> rfl

/-! ## Items -/

/-- What an item carries besides its children. -/
structure Attributes where
  id : String
  name : String
  kind : Kind
  required : Bool
  isArray : Bool
  /-- Usually a string; null when there is none. -/
  description : Json
  /-- The default; null when there is none. -/
  defaultValue : Json
  hasDefault : Bool
  /-- The value of a literal; null when there is none. -/
  literal : Json
  /-- The id of the item this one stands for. -/
  reference : Option String

/-- A node of a schema tree. -/
inductive Item where
  | mk (attributes : Attributes) (fields options : Option (List Item))

namespace Item

/-- All but the children. -/
def attributes : Item → Attributes
  | .mk a _ _ => a

/-- The fields of an object. -/
def fields : Item → Option (List Item)
  | .mk _ fields _ => fields

/-- The options of a union. -/
def options : Item → Option (List Item)
  | .mk _ _ options => options

/-- The id of an item. -/
def id (x : Item) : String := x.attributes.id

/-- The name of an item. -/
def name (x : Item) : String := x.attributes.name

/-- The kind of an item. -/
def kind (x : Item) : Kind := x.attributes.kind

/-- The children, fields before options. -/
def children (x : Item) : List Item := x.fields.getD [] ++ x.options.getD []

/-- Whether an item is an object. -/
def isObject (x : Item) : Bool := x.kind = .object

/-- Whether an item is a union. -/
def isUnion (x : Item) : Bool := x.kind = .union

/-- Whether an item can have children that count. -/
def isContainer (x : Item) : Bool := x.isObject || x.isUnion

end Item

/-- The scalar of a literal. A value that is none counts as the empty text. -/
def Attributes.scalar (a : Attributes) : Scalar := (Scalar.ofJson? a.literal).getD (.text "")

/-- The id an item refers to. An empty reference refers to nothing. -/
def Attributes.target? (a : Attributes) : Option String := a.reference.filter (· ≠ "")

/-- A schema: the fields of its root. -/
structure Document where
  fields : List Item

end SchemaTree
