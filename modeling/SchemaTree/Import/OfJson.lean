import SchemaTree.Import.View

/-!
# Views described in JSON

A view can be written down as a JSON object with a tag and, depending on the tag, the parts of its
form. An object without a tag is an opaque schema that says which samples it accepts.
-/

namespace SchemaTree

/-- The word for the sort of a sample. -/
def Sample.word : Sample → String
  | .text => "str"
  | .number => "int"
  | .flag => "bool"

/-- The responses of a schema that lists the sorts of samples it accepts. -/
def listedResponses (accepted : Json) (sample : Sample) : Response :=
  match accepted with
  | .arr words =>
    if words.any fun word => word.asString? = some sample.word then .accepts else .rejects none
  | _ => .rejects none

/-- The form of a tag without parts. -/
def SchemaForm.ofTag (tag : Json) : SchemaForm :=
  match tag with
  | .str "string" => .scalar .text
  | .str "number" => .scalar .number
  | .str "boolean" => .scalar .flag
  | .str "datetime" => .scalar .moment
  | .str "null" => .null
  | .str "any" => .any
  | .str "other" => .other
  | tag => .mistagged tag

mutual

/-- The view that a value describes. -/
def SchemaView.ofJson : Json → SchemaView
  | .obj members =>
    let get (key : String) := (Json.Members.find? key members).getD .null
    let tag := get "tag"
    .mk (.ok (get "doc")) <|
      if !tag.truthy then .opaqueTo (listedResponses (get "accepts"))
      else
        match tag with
        | .str "optional" => .optional (SchemaView.ofMember "of" members)
        | .str "array" => .array (SchemaView.ofMember "of" members)
        | .str "default" => .default (SchemaView.ofMember "of" members) (.json (get "default"))
        | .str "literal" => .literal (.json (get "value"))
        | .str "object" => .object (SchemaView.propertiesOfMember "shape" members)
        | .str "union" => .union (SchemaView.optionsOfMember "options" members)
        | tag => .ofTag tag
  | _ => .plain (.opaqueTo fun _ => .rejects none)

/-- The view that a member describes. -/
def SchemaView.ofMember (key : String) : List (String × Json) → SchemaView
  | [] => .plain (.opaqueTo fun _ => .rejects none)
  | (k, value) :: rest => if k = key then SchemaView.ofJson value else SchemaView.ofMember key rest

/-- The views that the members of a member describe. -/
def SchemaView.propertiesOfMember (key : String) : List (String × Json) → List (String × SchemaView)
  | [] => []
  | (k, value) :: rest =>
    if k = key then SchemaView.properties value else SchemaView.propertiesOfMember key rest

/-- The views that the members of an object describe. -/
def SchemaView.properties : Json → List (String × SchemaView)
  | .obj members => SchemaView.propertyList members
  | _ => []

/-- The views that members describe. -/
def SchemaView.propertyList : List (String × Json) → List (String × SchemaView)
  | [] => []
  | (name, value) :: rest => (name, SchemaView.ofJson value) :: SchemaView.propertyList rest

/-- The views that the elements of a member describe. -/
def SchemaView.optionsOfMember (key : String) : List (String × Json) → List SchemaView
  | [] => []
  | (k, value) :: rest =>
    if k = key then SchemaView.options value else SchemaView.optionsOfMember key rest

/-- The views that the elements of a list describe. -/
def SchemaView.options : Json → List SchemaView
  | .arr elements => SchemaView.optionList elements
  | _ => []

/-- The views that values describe. -/
def SchemaView.optionList : List Json → List SchemaView
  | [] => []
  | value :: rest => SchemaView.ofJson value :: SchemaView.optionList rest

end

end SchemaTree
