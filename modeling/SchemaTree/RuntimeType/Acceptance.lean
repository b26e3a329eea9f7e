import SchemaTree.Import.View
import SchemaTree.Json.Parser
import SchemaTree.RuntimeType.Basic
import SchemaTree.Shape.Loose
import SchemaTree.Shape.Validate

/-!
# Acceptance by runtime types

Which values a runtime type accepts. Acceptance is loose: a number is accepted where a point in time
is expected, and a flag where a number is. Some types admit no schema at all; for them every value
is rejected for another reason. -/

namespace SchemaTree

/-- Whether a text is that of a number. -/
def isNumeral (s : String) : Bool :=
  match Json.parse s with
  | .ok (.int _) | .ok (.float _) => true
  | _ => false

/-- Whether a value is a number or the text of one; flags are none. -/
def Json.isNumeric : Json → Bool
  | .int _ => true
  | .float x => isFinite x
  | .str s => isNumeral s
  | _ => false

/-- Whether a value is a number; flags are none. -/
def Json.isNumber : Json → Bool
  | .int _ => true
  | .float x => isFinite x
  | _ => false

/-- Whether a value is a text. -/
def Json.isText : Json → Bool
  | .str _ => true
  | _ => false

/-- Whether a basic type accepts a value. -/
def BasicType.accepts (type : BasicType) (value : Json) : Bool :=
  match type with
  | .text | .bytes | .path | .pattern => value.isText
  | .whole => (LooseType.toWhole value).isOk
  | .real | .complex => value.isNumeric || value.isFlag
  | .flag => (LooseType.toFlag value).isOk
  | .decimal => value.isNumeric
  | .duration => value.isNumber || value.isFlag
  | .moment => value.isNumber || (checkMoment value).isOk
  | .time => value.isNumber
  | .date | .uuid => false
  | .enumeration => value.asString? = some "red" || value.asString? = some "blue"
  | .object | .any => true
  | .null => value.sameScalar .null
  | .opaqueClass | .nonType => false

/-- Whether a value meets a constraint. -/
def Remark.admits (remark : Remark) (value : Json) : Bool :=
  match remark with
  | .description _ | .other _ => true
  | .atLeast bound =>
    match value with
    | .int n => bound ≤ n
    | .bool b => bound ≤ if b then 1 else 0
    | .float x => Float.ofInt bound ≤ x
    | _ => true
  | .maxLength bound =>
    match value with
    | .str s => s.length ≤ bound
    | .arr elements => elements.length ≤ bound
    | .obj members => members.length ≤ bound
    | _ => true

/-- The elements of a list that are texts of a container or its elements. -/
def acceptsElements (accepts : Json → Bool) : Json → Bool
  | .arr elements => elements.all accepts
  | _ => false

namespace RuntimeType

mutual

/-- Whether a schema can be made for a type. -/
def hasSchema : RuntimeType → Bool
  | .basic .opaqueClass | .basic .nonType => false
  | .basic _ => true
  | .container sort arguments => sort = .classOf || hasSchemas arguments
  | .union members => hasSchemas members
  | .literal _ => true
  | .remarked base _ => hasSchema base
  | .model .. => true
  | .adapter _ | .failing _ => false
  | .built _ | .recurring _ => true

/-- Whether schemas can be made for several types. -/
def hasSchemas : List RuntimeType → Bool
  | [] => true
  | type :: rest => hasSchema type && hasSchemas rest

end

mutual

/-- Whether a type with a schema accepts a value. -/
def accepts : RuntimeType → Json → Bool
  | .basic type, value => type.accepts value
  | .container sort arguments, value =>
    match sort with
    | .list | .set | .frozenSet => acceptsElements (acceptsArgument arguments) value
    | .sequence =>
      acceptsElements (acceptsArgument arguments) value || value.isText && admitsAnything arguments
    | .dictionary =>
      match value with
      | .obj members => members.all fun (_, v) => acceptsArgument arguments v
      | _ => false
    | .tuple =>
      match value with
      | .arr elements => arguments.isEmpty || acceptsPairwise arguments elements
      | _ => false
    | .classOf => false
  | .union members, value => acceptsSome members value
  | .literal values, value => values.any (SchemaValue.same (.json value))
  | .remarked base remarks, value => accepts base value && remarks.all (·.admits value)
  | .model _ _ fields, value =>
    match value with
    | .obj members => acceptsFields fields members
    | _ => false
  | .adapter inner, value => accepts inner value
  | .built m, value =>
    match (m.validate value).value with
    | some (.ok _) => true
    | _ => false
  -- a model that has itself as a part is not asked there: no sample is an object
  | .recurring _, _ | .failing _, _ => false

/-- Whether the first of several types, if there is one, accepts a value. -/
def acceptsArgument : List RuntimeType → Json → Bool
  | [], _ => true
  | type :: _, value => accepts type value

/-- Whether the first of several types, if there is one, accepts everything. -/
def admitsAnything : List RuntimeType → Bool
  | [] => true
  | type :: _ =>
    match type with
    | .basic .any => true
    | _ => false

/-- Whether one of several types accepts a value. -/
def acceptsSome : List RuntimeType → Json → Bool
  | [], _ => false
  | type :: rest, value => accepts type value || acceptsSome rest value

/-- Whether types accept values one by one. -/
def acceptsPairwise : List RuntimeType → List Json → Bool
  | [], values => values.isEmpty
  | type :: rest, values =>
    match values with
    | [] => false
    | value :: values => accepts type value && acceptsPairwise rest values

/-- Whether the fields of a model accept the members of an object. -/
def acceptsFields : List (ModelField × RuntimeType) → List (String × Json) → Bool
  | [], _ => true
  | (field, type) :: rest, members =>
    (match Json.Members.find? (field.alias?.getD field.key) members with
      | some value => accepts type value && field.constraints.all (·.admits value)
      | none => field.default.isPresent) && acceptsFields rest members

end

/-- The response of a type to a value. -/
def respond (type : RuntimeType) (value : Json) : Response :=
  let shown := match type with
    | .adapter inner => inner
    | type => type
  if !shown.hasSchema then .rejects (some "PydanticSchemaGenerationError")
  else if shown.accepts value then .accepts
  else .rejects (some "ValidationError")

end RuntimeType

end SchemaTree
