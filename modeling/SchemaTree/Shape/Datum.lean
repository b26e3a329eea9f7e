import SchemaTree.Moment.Basic
import SchemaTree.Shape.Basic

/-!
# Validated data

What validation makes of data: whole numbers of a number field have become binary64 numbers, texts
of a moment field have become moments, and records hold exactly their fields. A field that was
absent holds its default, which is not validated and may be anything.

The JSON value of data is written in one of two ways, straight away or from a copy; see
`SchemaTree.Shape.Write` for where they differ. How a record is written on its own does not depend
on where it stands, so a record holds both its written values. -/

namespace SchemaTree

/-- A way to write data. -/
inductive Route where
  /-- The data are written as they are met. -/
  | straight
  /-- The data are first copied into a JSON value, and that is written. -/
  | copied
deriving DecidableEq, Repr

/-- A field as far as it tells records apart. -/
structure FieldClass where
  key : String
  /-- The external name. -/
  name : String
  label : String
deriving DecidableEq, Repr

/-- What tells the records of a shape from others. -/
structure RecordClass where
  name : String
  fields : List FieldClass
deriving DecidableEq, Repr

/-- The class of the records of a shape with a name and fields. -/
def RecordClass.ofFields (name : String) (fields : List (FieldHead × Shape)) : RecordClass :=
  ⟨name, fields.map fun (head, shape) => ⟨head.key, head.name, shape.label⟩⟩

/-- A validated value. -/
inductive Datum where
  /-- A value that stays as it is. -/
  | plain (value : Json)
  | moment (m : Moment)
  | list (elements : List Datum)
  /-- A record with the values of its fields and the values that are written for it. -/
  | record (recordClass : RecordClass) (fields : List Datum) (written : Route → Json)

namespace Datum

mutual

/-- A value that nothing was made of. -/
def ofJson : Json → Datum
  | .arr xs => .list (ofList xs)
  | value => .plain value

/-- Values that nothing was made of. -/
def ofList : List Json → List Datum
  | [] => []
  | x :: rest => ofJson x :: ofList rest

end

mutual

/-- The value that is written for data wherever no shape says more. -/
def toJson (route : Route) : Datum → Json
  | .plain value => value
  | .moment m => .str m.text
  | .list elements => .arr (listToJson route elements)
  | .record _ _ written => written route

/-- The values that are written for the elements of a list. -/
def listToJson (route : Route) : List Datum → List Json
  | [] => []
  | x :: rest => x.toJson route :: listToJson route rest

end

mutual

/-- A value that nothing was made of is written as it is. -/
theorem toJson_ofJson (route : Route) : ∀ value : Json, (ofJson value).toJson route = value
  | .arr xs => by simp [ofJson, toJson, listToJson_ofList route xs]
  | .null | .bool _ | .int _ | .float _ | .str _ | .obj _ => rfl

/-- Values that nothing was made of are written as they are. -/
theorem listToJson_ofList (route : Route) : ∀ xs : List Json, listToJson route (ofList xs) = xs
  | [] => rfl
  | x :: rest => by simp [ofList, listToJson, toJson_ofJson route x, listToJson_ofList route rest]

end

end Datum

end SchemaTree
