import SchemaTree.Import.View
import SchemaTree.Shape.Basic

/-!
# Views of shapes

A shape that was built from a document shows itself to an importer as a view. A reference shows
nothing of what it leads to. A field shows its default unless that is null and the shape of the
field accepts null as such, in which case it shows itself as optional. An optional field is optional
by itself and not only by its type. -/

namespace SchemaTree

/-- Whether a shape accepts null as such. -/
def Shape.admitsNull (shape : Shape) : Bool :=
  match shape.bare with
  | .optional _ | .anything | .reference _ => true
  | _ => false

/-- The name under which a field is seen. An empty external name does not count. -/
def FieldHead.viewName (head : FieldHead) : String := if head.name = "" then head.key else head.name

/-- The view of a field with a default whose schema without it has a given view. -/
def SchemaView.withDefault (admitsNull : Bool) (default : Option Json) (view : SchemaView) :
    SchemaView :=
  match default, view.form with
  | none, .optional _ => .mk view.description (.optional view)
  | none, _ => view
  | some .null, _ =>
    .mk view.description (if admitsNull then .optional view else .default view (.json .null))
  | some value, _ => .mk view.description (.default view (.json value))

mutual

/-- The view of a shape. -/
def Shape.view : Shape → SchemaView
  | .scalar type => .plain (.scalar type)
  | .literal value => .plain (.literal (.json value.toJson))
  | .record _ documentation fields =>
    .mk (.ofDocumentation documentation) (.object (Json.Members.ofList (Shape.fieldViews fields)))
  | .union options => .plain (.union (Shape.views options))
  | .anything | .reference _ => .plain .any
  | .list element => .plain (.array element.view)
  | .optional inner => .plain (.optional inner.view)
  | .described inner description =>
    let view := inner.view
    .mk (Description.orElse description view.description) view.form

/-- The views of fields. -/
def Shape.fieldViews : List (FieldHead × Shape) → List (String × SchemaView)
  | [] => []
  | (head, shape) :: rest =>
    (head.viewName, shape.view.withDefault shape.admitsNull head.default) :: Shape.fieldViews rest

/-- The views of several shapes. -/
def Shape.views : List Shape → List SchemaView
  | [] => []
  | shape :: rest => shape.view :: Shape.views rest

end

end SchemaTree
