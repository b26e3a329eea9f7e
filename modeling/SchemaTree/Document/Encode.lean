import SchemaTree.Json.Printer
import SchemaTree.Tree.Basic

/-!
# Writing documents

The document form of an item has its members in a fixed order. Id, name, kind and the two flags are
always written; the rest only where the item has it, so that absent and empty children, absent and
null defaults and absent and empty descriptions stay apart. A whole number with too many digits
keeps the document from being written (`Document.dump`).
-/

namespace SchemaTree

/-- A member that is written only if its value is not null. -/
def optionalMember (key : String) : Json → List (String × Json)
  | .null => []
  | value => [(key, value)]

/-- The members written before the children. -/
def Attributes.leadingMembers (a : Attributes) : List (String × Json) :=
  [("id", .str a.id), ("name", .str a.name), ("type", .str a.kind.name),
    ("required", .bool a.required), ("isArray", .bool a.isArray)] ++
  optionalMember "description" a.description ++
  if a.hasDefault then [("default", a.defaultValue)] else []

/-- The members written after the children. -/
def Attributes.trailingMembers (a : Attributes) : List (String × Json) :=
  (match a.reference with
    | none => []
    | some target => [("lazy", .obj [("refId", .str target)])]) ++
  optionalMember "literalValue" a.literal

mutual

/-- The document form of an item. -/
def Item.toJson : Item → Json
  | .mk a fields options =>
    .obj (a.leadingMembers ++ Item.slotMembers "fields" fields ++
      Item.slotMembers "options" options ++ a.trailingMembers)

/-- The member that holds a list of children. -/
def Item.slotMembers (key : String) : Option (List Item) → List (String × Json)
  | none => []
  | some xs => [(key, .arr (Item.listToJson xs))]

/-- The document forms of a list of children. -/
def Item.listToJson : List Item → List Json
  | [] => []
  | x :: rest => x.toJson :: Item.listToJson rest

end

/-- The document form of a schema. -/
def Document.toJson (d : Document) : Json :=
  .obj [("type", .str Kind.object.name), ("id", .str rootId),
    ("fields", .arr (Item.listToJson d.fields))]

/-- The text of a document. -/
def Document.text (d : Document) (indent : Option Nat) : String := d.toJson.print (.document indent)

/-- Why a document cannot be written. -/
inductive DumpError where
  /-- A whole number has too many digits. -/
  | tooLong
  /-- A value in it is none that JSON has. -/
  | foreign (problem : String)
deriving DecidableEq, Repr

/-- The wording of an error. -/
def DumpError.message : DumpError → String
  | .tooLong => Json.tooLongMessage
  | .foreign problem => problem

/-- Writes a document, unless a whole number in it has too many digits. -/
def Document.dump (d : Document) (indent : Option Nat) : Except DumpError String :=
  if d.toJson.excess?.isSome then .error .tooLong else .ok (d.text indent)

end SchemaTree
