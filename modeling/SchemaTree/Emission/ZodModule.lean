import SchemaTree.Emission.ZodExpr
import SchemaTree.Tree.Reference

/-!
# Zod modules

A document becomes a module that exports one object schema and its type. Every item becomes an
expression for its shape. Descriptions are attached in two places: that of an object where the
object becomes a field or an option, any other with the expression of the item itself. What an item
is called decides here, not what it stands for: a reference may be called an object. In a field the
suffixes follow in the order array, optional, default; an option of a union can only be an array. -/

namespace SchemaTree

/-- Attaches the description of an item that is not called an object. -/
def ZodExpr.describedInside (a : Attributes) (e : ZodExpr) : ZodExpr :=
  if a.description.truthy ∧ a.kind ≠ .object then .describe e a.description else e

/-- Attaches the description of an item that is called an object, where it becomes a field or an
option. -/
def ZodExpr.describedOutside (a : Attributes) (e : ZodExpr) : ZodExpr :=
  if a.description.truthy ∧ a.kind = .object then .describe e a.description else e

/-- Marks the expression of an array item. -/
def ZodExpr.arrayed (a : Attributes) (e : ZodExpr) : ZodExpr := if a.isArray then .array e else e

/-- The suffixes of a field. -/
def ZodExpr.asField (a : Attributes) (e : ZodExpr) : ZodExpr :=
  let e := e.arrayed a
  let e := if a.required then e else .optional e
  if a.hasDefault then .default e a.defaultValue else e

/-- The expression of a leaf. -/
def ZodExpr.leaf (a : Attributes) : ZodExpr :=
  match a.kind with
  | .string => .string
  | .number => .number
  | .boolean => .boolean
  | .datetime => .datetime
  | .literal => .literal a.scalar
  | _ => .unknown

mutual

/-- The expression of an item, without the description that an object gets outside. -/
def Item.zodItem (table : ItemTable) : Item → ZodExpr
  | .mk a fields options =>
    ZodExpr.describedInside a <|
      if a.target?.isSome then
        .reference ((table.resolve a).map fun target => Naming.bindingName target.name)
      else
        match a.kind with
        | .object => .object (Item.zodFields table fields)
        | .union =>
          match Item.zodOptions table options with
          | first :: second :: rest => .union (first :: second :: rest)
          | _ => .unknown
        | _ => .leaf a

/-- The properties of the fields of an object. -/
def Item.zodFields (table : ItemTable) : Option (List Item) → List (String × ZodExpr)
  | none => []
  | some xs => Item.zodFieldList table xs

/-- The properties of a list of fields. -/
def Item.zodFieldList (table : ItemTable) : List Item → List (String × ZodExpr)
  | [] => []
  | x :: rest =>
    (x.name, ((x.zodItem table).describedOutside x.attributes).asField x.attributes) ::
      Item.zodFieldList table rest

/-- The expressions of the options of a union. -/
def Item.zodOptions (table : ItemTable) : Option (List Item) → List ZodExpr
  | none => []
  | some xs => Item.zodOptionList table xs

/-- The expressions of a list of options. -/
def Item.zodOptionList (table : ItemTable) : List Item → List ZodExpr
  | [] => []
  | x :: rest =>
    ((x.zodItem table).describedOutside x.attributes).arrayed x.attributes ::
      Item.zodOptionList table rest

end

/-- The properties that a module exports. -/
def Document.zodProperties (d : Document) : List (String × ZodExpr) :=
  Item.zodFieldList d.index d.fields

/-- A module: the names it exports and the properties of its schema. -/
structure ZodModule where
  exportName : String
  typeName : String
  properties : List (String × ZodExpr)

/-- The module of a document. -/
def Document.zodModule (d : Document) (exportName typeName : String) : ZodModule :=
  ⟨exportName, typeName, d.zodProperties⟩

/-- The line of a property at the top level. -/
def ZodModule.writeProperty (indent : Indent) (property : String × ZodExpr) : List Char :=
  indent.unit ++ ZodExpr.propertyKey property.1 ++ ':' :: ' ' :: property.2.write indent 1 ++
    [',', '\n']

/-- The text of a module. -/
def ZodModule.write (indent : Indent) (m : ZodModule) : List Char :=
  "import \x7b z \x7d from \"zod\";\n\nexport const ".toList ++ m.exportName.toList ++
  " = z.object(\x7b\n".toList ++ m.properties.flatMap (writeProperty indent) ++
  "\x7d);\n\nexport type ".toList ++ m.typeName.toList ++ " = z.infer<typeof ".toList ++
  m.exportName.toList ++ ">;".toList

/-- What keeps the properties of a module from being written, in the order in which writing comes to
it. -/
def ZodModule.faults (unit : Json) (m : ZodModule) : List WriteFault :=
  m.properties.flatMap fun property => WriteFault.ofValue unit ++ property.2.faults unit 1

end SchemaTree
