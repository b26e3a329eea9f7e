import SchemaTree.Import.View
import SchemaTree.Shape.Build

/-!
# Runtime types

The types by which models of a running program are declared, as far as an importer meets them: basic
types, containers, unions, literals, types with remarks, models with their fields, and models that
were built from documents. A model may have itself as a part, and there are objects that cannot even
be looked at. Aliases are texts, and descriptions JSON values; for both the library of the models
asks for texts.

Unions are kept in a normal form: `RuntimeType.unionOf` merges nested unions, drops repeated members
and makes a union of one member that member. The type of null alone is a member like any other; a
type is optional if it is a union with that member. -/

namespace SchemaTree

/-- The basic types. -/
inductive BasicType where
  | text
  | whole
  | real
  | flag
  | moment
  | decimal
  | bytes
  | date
  | time
  | duration
  | uuid
  | path
  | complex
  | pattern
  /-- One of the words `red` and `blue`. -/
  | enumeration
  | object
  | any
  | null
  /-- A class that no schema can be made for. -/
  | opaqueClass
  /-- A value, which is no type at all. -/
  | nonType
deriving DecidableEq, Repr

/-- The types that have other types as arguments. -/
inductive ContainerType where
  | list
  | set
  | frozenSet
  | sequence
  | dictionary
  | tuple
  | classOf
deriving DecidableEq, Repr

/-- What is remarked on a type. -/
inductive Remark where
  | description (text : Json)
  | atLeast (bound : Int)
  | maxLength (bound : Nat)
  | other (value : Json)

/-- The default of a field. What was given as one is copied whenever it is asked for, or else it is
made anew; both may fail. -/
inductive FieldDefault where
  | absent
  | copied (result : Except String SchemaValue)
  | made (result : Except String SchemaValue)

/-- Whether there is a default. -/
def FieldDefault.isPresent : FieldDefault → Bool
  | absent => false
  | copied _ | made _ => true

/-- A field of a model, its type apart. -/
structure ModelField where
  key : String
  alias? : Option String
  default : FieldDefault
  description : Option Json
  constraints : List Remark

/-- A runtime type. -/
inductive RuntimeType where
  | basic (type : BasicType)
  | container (sort : ContainerType) (arguments : List RuntimeType)
  | union (members : List RuntimeType)
  | literal (values : List SchemaValue)
  | remarked (base : RuntimeType) (remarks : List Remark)
  | model (name : String) (documentation : Json) (fields : List (ModelField × RuntimeType))
  /-- An object that validates for a type but does not show it. -/
  | adapter (inner : RuntimeType)
  /-- A model that was built from a document. -/
  | built (model : Model)
  /-- The model of a name, within that model itself. -/
  | recurring (name : String)
  /-- An object that cannot be looked at. -/
  | failing (problem : String)

/-- Whether two scalar values are equal and of one type. -/
def Json.sameScalar : Json → Json → Bool
  | .null, .null => true
  | .bool a, .bool b => a = b
  | .int a, .int b => a = b
  | .float a, .float b => a == b
  | .str a, .str b => a = b
  | _, _ => false

/-- Whether two values of schemas are equal and of one type. -/
def SchemaValue.same : SchemaValue → SchemaValue → Bool
  | json a, json b => a.sameScalar b
  | foreign a, foreign b => a = b
  | _, _ => false

/-- Whether two remarks are equal. What a field declaration remarks is only equal to itself, and no
two types share it. -/
def Remark.same : Remark → Remark → Bool
  | .other a, .other b => a.sameScalar b
  | _, _ => false

/-- Whether two lists have the same length and corresponding elements are related. -/
def pairwiseSame (same : α → α → Bool) : List α → List α → Bool
  | [], [] => true
  | a :: as, b :: bs => same a b && pairwiseSame same as bs
  | _, _ => false

namespace RuntimeType

/-! ## Equality -/

mutual

/-- Whether two types are equal. Models are only equal to themselves and never meet themselves. -/
def same : RuntimeType → RuntimeType → Bool
  | .basic a, b =>
    match b with
    | .basic b => a = b
    | _ => false
  | .container sort arguments, b =>
    match b with
    | .container sort' arguments' => sort = sort' && sameList arguments arguments'
    | _ => false
  | .union members, b =>
    match b with
    | .union members' => sameAll members members' && members'.all (sameAny members)
    | _ => false
  | .literal values, b =>
    match b with
    | .literal values' =>
      values.all (fun v => values'.any v.same) && values'.all (fun v => values.any v.same)
    | _ => false
  | .remarked base remarks, b =>
    match b with
    | .remarked base' remarks' => same base base' && pairwiseSame Remark.same remarks remarks'
    | _ => false
  | .recurring name, b =>
    match b with
    | .recurring name' => name = name'
    | _ => false
  | .model .., _ | .adapter _, _ | .built _, _ | .failing _, _ => false

/-- Whether corresponding types are equal. -/
def sameList : List RuntimeType → List RuntimeType → Bool
  | [], bs => bs.isEmpty
  | a :: as, bs =>
    match bs with
    | [] => false
    | b :: bs => same a b && sameList as bs

/-- Whether every type of one list is in the other. -/
def sameAll : List RuntimeType → List RuntimeType → Bool
  | [], _ => true
  | a :: as, bs => bs.any (same a) && sameAll as bs

/-- Whether a type is in a list. -/
def sameAny : List RuntimeType → RuntimeType → Bool
  | [], _ => false
  | a :: as, b => same a b || sameAny as b

end

/-! ## Constructions -/

/-- The members that a type contributes to a union. -/
def members : RuntimeType → List RuntimeType
  | .union members => members
  | type => [type]

/-- The members of a list without repetitions, each at its first place. -/
def dedup (types : List RuntimeType) : List RuntimeType :=
  types.foldl (fun acc type => if acc.any (same type) then acc else acc ++ [type]) []

/-- The union of types. -/
def unionOf (types : List RuntimeType) : RuntimeType :=
  match dedup (types.flatMap members) with
  | [type] => type
  | types => .union types

/-- A type or null. -/
def optionalOf (type : RuntimeType) : RuntimeType := unionOf [type, .basic .null]

/-- A type with more remarks, which come after those it has. -/
def remark (type : RuntimeType) (remarks : List Remark) : RuntimeType :=
  match type with
  | .remarked base earlier => .remarked base (earlier ++ remarks)
  | type => .remarked type remarks

/-- Literal values without repetitions. -/
def literalOf (values : List SchemaValue) : RuntimeType :=
  .literal (values.foldl (fun acc v => if acc.any v.same then acc else acc ++ [v]) [])

/-- A type without its remarks. -/
def bare : RuntimeType → RuntimeType
  | .remarked base _ => base
  | type => type

/-- The remarks on a type. -/
def remarks : RuntimeType → List Remark
  | .remarked _ remarks => remarks
  | _ => []

/-- Whether a type is that of null. -/
def isNull : RuntimeType → Bool
  | .basic .null => true
  | _ => false

/-- Whether a type accepts null as such. -/
def admitsNull (type : RuntimeType) : Bool :=
  match type.bare with
  | .basic .null | .basic .any => true
  | .union members => members.any isNull
  | _ => false

end RuntimeType

end SchemaTree
