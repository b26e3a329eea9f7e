import SchemaTree.Emission.ClassBlocks

/-!
# Rendering without notes

What rendering an item comes to, apart from what it notes on the way: the type of the item and the
blocks that are put at the end of the module. Neither depends on the module as it was before, so
that both can be given by functions of the item. Rendering comes to exactly this
(`RenderContext.renders_item`). -/

namespace SchemaTree

/-- A type expression and the blocks it needs before it. -/
structure Rendered where
  blocks : List Block
  type : TypeExpr

/-- A field without its key. -/
structure RenderedField where
  blocks : List Block
  type : TypeExpr
  default : Option Json

/-- Attaches a description. -/
def TypeExpr.describedBy (description : Json) (a : TypeExpr) : TypeExpr :=
  if description.truthy then .described a description else a

/-- The type of a literal. -/
def TypeExpr.ofScalar : Scalar → TypeExpr
  | .text s => .literal s
  | value => .guarded value

/-- The type of a leaf. -/
def TypeExpr.leaf (a : Attributes) : TypeExpr :=
  match a.kind.scalarType? with
  | some type => .scalar type
  | none => if a.kind = .literal then .ofScalar a.scalar else .any

/-- The type of an item that refers to another one. Objects and unions that are referred to have
names; a leaf has none and is copied. -/
def RenderContext.reference (context : RenderContext) (a : Attributes) : TypeExpr :=
  match context.table.resolve a with
  | none => .any
  | some target =>
    match Json.Members.find? target.id context.names.classes,
        Json.Members.find? target.id context.names.aliases with
    | some name, _ => .forward name
    | none, some name => .forward name
    | none, none => .leaf target.attributes

/-- Gives a type expression its alias, if the item with this id has one. -/
def RenderContext.aliased (context : RenderContext) (id : String) (r : Rendered) : Rendered :=
  match Json.Members.find? id context.names.aliases with
  | some name => ⟨r.blocks ++ [.typeAlias name r.type], .name name⟩
  | none => r

/-- The class block of an object with fields, behind the blocks that its fields need. -/
def classBlocks (name : String) (description : Json) (fields : List (String × RenderedField)) :
    List Block :=
  let shape := Json.Members.ofList fields
  let keys := Naming.fieldKeys (shape.map (·.1))
  let lines := (keys.zip shape).map fun (key, external, field) =>
    { key
      type := field.type
      default := field.default
      external := if key = external then none else some external : FieldLine }
  shape.flatMap (·.2.blocks) ++ [.cls name description lines]

/-- Applies array, optional and default, in this order. -/
def Rendered.asField (a : Attributes) (r : Rendered) : RenderedField :=
  let type := if a.isArray then .list r.type else r.type
  { blocks := r.blocks
    type := if a.required then type else .optional type
    default :=
      if a.hasDefault then some a.defaultValue else if a.required then none else some .null }

/-- Applies array, the only wrapping of an option. -/
def Rendered.asOption (a : Attributes) (r : Rendered) : Rendered :=
  { r with type := if a.isArray then .list r.type else r.type }

/-- The type of a union. -/
def Rendered.union : List Rendered → Rendered
  | first :: second :: rest =>
    let options := first :: second :: rest
    ⟨options.flatMap (·.blocks), .union (options.map (·.type))⟩
  | _ => ⟨[], .any⟩

mutual

/-- Renders an item without the wrapping of its position. -/
def Item.render (context : RenderContext) : Item → Rendered
  | .mk a fields options =>
    if a.target?.isSome then ⟨[], context.reference a⟩
    else
      match a.kind with
      | .object =>
        let name := (Json.Members.find? a.id context.names.classes).getD ""
        ⟨classBlocks name a.description (Item.renderFields context fields), .name name⟩
      | .union =>
        let r := Rendered.union (Item.renderOptions context options)
        context.aliased a.id { r with type := r.type.describedBy a.description }
      | _ =>
        context.aliased a.id ⟨[], (TypeExpr.leaf a).describedBy a.description⟩

/-- Renders the fields of an object. -/
def Item.renderFields (context : RenderContext) :
    Option (List Item) → List (String × RenderedField)
  | none => []
  | some xs => Item.renderFieldList context xs

/-- Renders a list of fields. -/
def Item.renderFieldList (context : RenderContext) : List Item → List (String × RenderedField)
  | [] => []
  | x :: rest =>
    (x.name, (x.render context).asField x.attributes) :: Item.renderFieldList context rest

/-- Renders the options of a union. -/
def Item.renderOptions (context : RenderContext) : Option (List Item) → List Rendered
  | none => []
  | some xs => Item.renderOptionList context xs

/-- Renders a list of options. -/
def Item.renderOptionList (context : RenderContext) : List Item → List Rendered
  | [] => []
  | x :: rest => (x.render context).asOption x.attributes :: Item.renderOptionList context rest

end

end SchemaTree
