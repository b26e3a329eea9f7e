import SchemaTree.Import.OfShape
import SchemaTree.RuntimeType.Acceptance

/-!
# Views of runtime types

How a runtime type shows itself to an importer. A union with null shows itself as optional, a
literal with several values as a union, and every container but dictionaries, tuples and classes as
an array. Of several descriptions remarked on a type the last one counts that is not empty. -/

namespace SchemaTree

/-- The form of a basic type; `respond` is how the type responds to samples. -/
def BasicType.form (type : BasicType) (respond : Sample → Response) : SchemaForm :=
  match type with
  | .text => .scalar .text
  | .whole | .real | .decimal => .scalar .number
  | .flag => .scalar .flag
  | .moment => .scalar .moment
  | .bytes | .date | .time | .duration | .uuid | .path | .enumeration => .other
  | .any => .any
  | .null => .null
  | .complex | .pattern | .object | .opaqueClass | .nonType => .opaqueTo respond

/-- The last description among remarks that is not empty; null if there is none. -/
def describedIn (remarks : List Remark) : Json :=
  remarks.foldl
    (fun found remark =>
      match remark with
      | .description text => if text.truthy then text else found
      | _ => found)
    .null

/-- The description that remarks give a field: the last one, even if it is empty. -/
def fieldDescriptionIn (remarks : List Remark) : Json :=
  remarks.foldl
    (fun found remark =>
      match remark with
      | .description text => text
      | _ => found)
    .null

/-- The name under which a field is seen. An empty alias does not count. -/
def ModelField.viewName (field : ModelField) : String :=
  match field.alias? with
  | none | some "" => field.key
  | some name => name

/-- The view of a union with the views of its members, each with a mark for the type of null. -/
def SchemaView.ofMembers (members : List (Bool × SchemaView)) : SchemaView :=
  if members.any (·.1) then
    match members.filter (!·.1) with
    | [(_, view)] => .plain (.optional view)
    | rest => .plain (.optional (.plain (.union (rest.map (·.2)))))
  else .plain (.union (members.map (·.2)))

/-- The view of literal values. -/
def SchemaView.ofLiterals : List SchemaValue → SchemaView
  | [value] => .plain (.literal value)
  | values => .plain (.union (values.map fun value => .plain (.literal value)))

/-- The view of a field with a default whose schema without it has a given view. -/
def FieldDefault.view (default : FieldDefault) (admitsNull : Bool) (view : SchemaView) :
    SchemaView :=
  match default with
  | .absent => view.withDefault admitsNull none
  | .copied (.ok (.json value)) => view.withDefault admitsNull (some value)
  | .copied (.ok value) | .made (.ok value) => .mk view.description (.default view value)
  | .copied (.error problem) | .made (.error problem) =>
    .mk view.description (.failingDefault view problem)

/-- The view of a field whose type has a given view, before its default is seen. -/
def ModelField.describe (field : ModelField) (remarks : List Remark) (view : SchemaView) :
    SchemaView :=
  .mk (Description.orElse (field.description.getD (fieldDescriptionIn remarks)) view.description)
    view.form

namespace RuntimeType

/-- The responses of a type to samples. -/
def responses (type : RuntimeType) (sample : Sample) : Response := type.respond sample.value

mutual

/-- The view of a type. -/
def view : RuntimeType → SchemaView
  | .basic type => .plain (type.form (responses (.basic type)))
  | .container sort arguments =>
    match sort with
    | .list | .set | .frozenSet | .sequence => .plain (.array (argumentView arguments))
    | .dictionary | .tuple | .classOf => .plain .other
  | .union members => .ofMembers (memberViews members)
  | .literal values => .ofLiterals values
  | .remarked base remarks =>
    let view := base.view
    .mk (Description.orElse (describedIn remarks) view.description) view.form
  | .model _ documentation fields =>
    .mk (.ofDocumentation documentation) (.object (Json.Members.ofList (fieldViews fields)))
  | .adapter inner => .plain (.opaqueTo (responses (.adapter inner)))
  | .built m => m.shape.view
  | .recurring _ => .plain .endless
  | .failing problem => .plain (.failing problem)

/-- The view of the first of several types; without one everything goes. -/
def argumentView : List RuntimeType → SchemaView
  | [] => .plain .any
  | type :: _ => type.view

/-- The views of the members of a union. -/
def memberViews : List RuntimeType → List (Bool × SchemaView)
  | [] => []
  | type :: rest => (type.isNull, type.view) :: memberViews rest

/-- The views of the fields of a model. -/
def fieldViews : List (ModelField × RuntimeType) → List (String × SchemaView)
  | [] => []
  | (field, type) :: rest =>
    let view := match type with
      | .remarked base remarks => field.describe remarks base.view
      | type => field.describe [] type.view
    (field.viewName, field.default.view type.admitsNull view) :: fieldViews rest

end

end RuntimeType

/-! ## Fields as schemas -/

/-- A field of a model as a schema of its own. -/
structure FieldSchema where
  /-- The view of the type of the field. -/
  bare : SchemaView
  /-- The view of the field with its default. -/
  full : SchemaView
  respond : Json → Response

/-- A field of a declared model as a schema. -/
def ModelField.schema (field : ModelField) (type : RuntimeType) : FieldSchema :=
  let bare := field.describe type.remarks type.bare.view
  ⟨bare, field.default.view type.admitsNull bare, (type.remark field.constraints).respond⟩

/-- A field of a built model as a schema. -/
def Model.fieldSchema (m : Model) (head : FieldHead) (shape : Shape) : FieldSchema :=
  let bare := shape.view
  ⟨bare, bare.withDefault shape.admitsNull head.default,
    (RuntimeType.built { m with shape }).respond⟩

/-- The field of a model with a key as a schema. -/
def RuntimeType.fieldSchema? (key : String) : RuntimeType → Option FieldSchema
  | .model _ _ fields =>
    (fields.find? (·.1.key = key)).map fun (field, type) => field.schema type
  | .built m =>
    match m.shape with
    | .record _ _ fields =>
      (fields.find? (·.1.key = key)).map fun (head, shape) => m.fieldSchema head shape
    | _ => none
  | _ => none

end SchemaTree
