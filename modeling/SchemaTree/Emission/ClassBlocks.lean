import SchemaTree.Emission.ClassNames
import SchemaTree.Naming.FieldKey

/-!
# The blocks of a document

Every item becomes a type expression, and the objects and named unions in it become blocks that come
before the block that uses them. Rendering goes through a document once and keeps a module on the
way: it notes each name and each helper where it uses one, puts each block at the end of those there
are, and notes what keeps the module from being written.

Of several fields with one name the last one counts, at the place of the first; the others leave no
trace. A union with fewer than two options is `Any`, and its option leaves no trace either. -/

namespace SchemaTree

/-- What rendering looks up. -/
structure RenderContext where
  table : ItemTable
  names : DefinitionNames

/-- What stands before the first bracket in the text of a type expression. -/
def TypeExpr.head (type : TypeExpr) : String := String.ofList (type.write.takeWhile (· ≠ '['))

/-- Rendering extends a module. -/
abbrev Rendering := StateM ClassModule

namespace Rendering

/-! ## Notes -/

/-- Notes that names are used. -/
def use (names : List String) : Rendering Unit :=
  modify fun m => { m with usedNames := names.foldr List.insert m.usedNames }

/-- Notes that a helper is used, and with it the names that it uses. -/
def useHelper (h : Helper) : Rendering Unit := do
  modify fun m => { m with usedHelpers := m.usedHelpers.insert h }
  use h.identifiers

/-- Notes what keeps the module from being written. -/
def note (faults : List WriteFault) : Rendering Unit :=
  modify fun m => { m with faults := m.faults ++ faults }

/-- Does something under a condition. -/
def onlyIf (condition : Bool) (action : Rendering Unit) : Rendering Unit :=
  if condition then action else pure ()

/-- Puts a block at the end. -/
def define (b : Block) : Rendering Unit :=
  modify fun m =>
    { m with blocks := m.blocks ++ [b], classNames := m.classNames ++ b.className?.toList }

/-! ## Types -/

/-- Renders a literal that keeps numbers and booleans apart. -/
def guarded (value : Scalar) : Rendering TypeExpr := do
  useHelper .exactLiteral
  use ["Literal", "BeforeValidator"]
  return .guarded value

/-- Renders a literal. -/
def literal (value : Scalar) : Rendering TypeExpr := do
  note (WriteFault.ofValue value.toJson)
  match value with
  | .text s => return .literal s
  | value => guarded value

/-- Renders a scalar type. -/
def scalar (type : ScalarType) : Rendering TypeExpr := do
  type.helper?.elim (pure ()) useHelper
  return .scalar type

/-- Renders a leaf. -/
def leaf (a : Attributes) : Rendering TypeExpr :=
  match a.kind.scalarType? with
  | some type => scalar type
  | none => if a.kind = .literal then literal a.scalar else return .any

/-- Attaches a description to a type that was just made. -/
def describe (description : Json) (type : TypeExpr) : Rendering TypeExpr := do
  use [type.head]
  if description.truthy then
    use ["Annotated", "Field"]
    note (WriteFault.ofValue description)
    return .described type description
  else return type

/-- Gives a type its alias, if the item with this id has one. -/
def aliased (context : RenderContext) (id : String) (type : TypeExpr) : Rendering TypeExpr :=
  match Json.Members.find? id context.names.aliases with
  | some name => do
    define (.typeAlias name type)
    return .name name
  | none => return type

/-- Renders an item that refers to another one. Objects and unions that are referred to have names;
a leaf has none and is copied, without its description. -/
def reference (context : RenderContext) (a : Attributes) : Rendering TypeExpr :=
  match context.table.resolve a with
  | none => do
    use ["Any"]
    return .any
  | some target =>
    match Json.Members.find? target.id context.names.classes,
        Json.Members.find? target.id context.names.aliases with
    | some name, _ => return .forward name
    | none, some name => return .forward name
    | none, none => do describe .null (← leaf target.attributes)

/-- Renders a union, given how to render its options. -/
def union : List (Rendering TypeExpr) → Rendering TypeExpr
  | first :: second :: rest => return .union (← (first :: second :: rest).mapM id)
  | _ => return .any

/-! ## Classes -/

/-- Renders an attribute, given how to render the type of its field: applies array, optional and
default, in this order. -/
def field (a : Attributes) (key : String) (type : Rendering TypeExpr) : Rendering FieldLine := do
  let type ← type
  let type := if a.isArray then .list type else type
  onlyIf (!a.required) (use ["Optional"])
  onlyIf a.hasDefault (note (WriteFault.ofValue a.defaultValue))
  onlyIf (key ≠ a.name) (use ["Field"])
  return {
    key
    type := if a.required then type else .optional type
    default := if a.hasDefault then some a.defaultValue else if a.required then none else some .null
    external := if key = a.name then none else some a.name }

/-- Renders a class, given for each field its name and how to render it under a key. -/
def cls (name : String) (description : Json)
    (fields : List (String × (String → Rendering FieldLine))) : Rendering Unit := do
  let shape := Json.Members.ofList fields
  let keys := Naming.fieldKeys (shape.map (·.1))
  let lines ← (keys.zip shape).mapM fun (key, _, line) => line key
  note (WriteFault.ofDocumentation description)
  define (.cls name description lines)

/-! ## Items -/

mutual

/-- Renders an item without the wrapping of its position. -/
def item (context : RenderContext) : Item → Rendering TypeExpr
  | .mk a fields options =>
    if a.target?.isSome then reference context a
    else
      match a.kind with
      | .object => do
        let name := (Json.Members.find? a.id context.names.classes).getD ""
        cls name a.description (fieldsOf context fields)
        return .name name
      | .union => do
        aliased context a.id (← describe a.description (← union (optionsOf context options)))
      | _ => do aliased context a.id (← describe a.description (← leaf a))

/-- How to render the fields of an object. -/
def fieldsOf (context : RenderContext) :
    Option (List Item) → List (String × (String → Rendering FieldLine))
  | none => []
  | some xs => fieldList context xs

/-- How to render each of several fields. -/
def fieldList (context : RenderContext) : List Item → List (String × (String → Rendering FieldLine))
  | [] => []
  | x :: rest =>
    (x.name, fun key => field x.attributes key (item context x)) :: fieldList context rest

/-- How to render the options of a union. -/
def optionsOf (context : RenderContext) : Option (List Item) → List (Rendering TypeExpr)
  | none => []
  | some xs => optionList context xs

/-- How to render each of several options. Only array is applied to an option. -/
def optionList (context : RenderContext) : List Item → List (Rendering TypeExpr)
  | [] => []
  | x :: rest =>
    ((fun type => if x.attributes.isArray then .list type else type) <$> item context x) ::
      optionList context rest

end

end Rendering

/-- The class module of a document. Rendering begins when all names are given out. -/
def Document.classModule (d : Document) (typeName : String) : ClassModule :=
  let names := d.definitionNames
  let rootName := names.rootName typeName
  let context : RenderContext := ⟨d.index, names⟩
  let start : ClassModule := { usedNames := rootName :: "BaseModel" :: names.taken }
  ((Rendering.cls rootName .null (Rendering.fieldList context d.fields)).run start).2

end SchemaTree
