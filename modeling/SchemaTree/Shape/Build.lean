import SchemaTree.Naming.FieldKey
import SchemaTree.Naming.Words
import SchemaTree.Registry
import SchemaTree.Settings
import SchemaTree.Shape.Basic
import SchemaTree.Tree.Basic

/-!
# Building shapes

Every item of a document is built into a shape and registered under its id, children before their
parent. All fields of an object are built, but of several with one name only the last one becomes a
field of the record, at the place of the first. A union needs two options; with fewer it accepts
anything.

Array, optional and default belong to the position of an item and not to its own shape: they are
applied where the item is used as a field or an option.
-/

namespace SchemaTree

/-- Why a value names no record. -/
inductive NameFault where
  | notText (typeWord : String)
  /-- The character zero is in the name. -/
  | zeroCharacter
deriving DecidableEq, Repr

/-- The wording of a fault. -/
def NameFault.message : NameFault → String
  | .notText typeWord => "type.__new__() argument 1 must be str, not " ++ typeWord
  | .zeroCharacter => "type name must not contain null characters"

/-- A step of building: it registers shapes, reports events and may fail. -/
abbrev Building (α : Type) := ExceptT NameFault (StateT (Registry Shape) Logged) α

/-- Uses a setting as the name of a record. -/
def recordName : Json → Building String
  | .str name => if '\x00' ∈ name.toList then throw .zeroCharacter else return name
  | .null => throw (.notText "None")
  | value => throw (.notText value.typeWord)

/-- Reports an event. -/
def Building.report (event : Event) : Building Unit := monadLift (Logged.report event)

/-- Registers the shape of an item. -/
def Building.register (a : Attributes) (shape : Shape) : Building Unit :=
  modify fun registry => registry.register a.id shape a.reference

/-! ## Shapes of items without children -/

/-- The shape of a literal. -/
def buildLiteral (a : Attributes) : Building Shape := do
  if (Scalar.ofJson? a.literal).isNone then
    Building.report (.unsupportedLiteral a.id a.literal.typeWord)
  return .literal a.scalar

/-- The shape of a leaf. -/
def buildLeaf (a : Attributes) : Building Shape :=
  match a.kind.scalarType? with
  | some type => return .scalar type
  | none =>
    if a.kind = .literal then buildLiteral a
    else do
      Building.report (.unrestrictedKind a.id a.kind.name)
      return .anything

/-! ## Shapes of objects and unions -/

/-- The default and the shape of an item used as a field. -/
def Shape.asField (a : Attributes) (shape : Shape) : Option Json × Shape :=
  let shape := if a.isArray then .list shape else shape
  (if a.hasDefault then some a.defaultValue else if a.required then none else some .null,
    if a.required then shape else .optional shape)

/-- The shape of an item used as an option. -/
def Shape.asOption (a : Attributes) (shape : Shape) : Shape :=
  if a.isArray then .list shape else shape

/-- The fields of a record from all fields of an object by name. -/
def recordFields (fields : List (String × Option Json × Shape)) : List (FieldHead × Shape) :=
  let fields := Json.Members.ofList fields
  let keys := Naming.fieldKeys (fields.map (·.1))
  (keys.zip fields).map fun (key, name, default, shape) => (⟨key, name, default⟩, shape)

/-- The shape of a union. -/
def buildUnion (a : Attributes) (options : List Shape) : Building Shape := do
  if options.length < 2 then
    Building.report (.smallUnion a.id options.length)
    return .anything
  else
    return .union options

/-- The shape of an object. -/
def buildRecord (settings : BuilderSettings) (a : Attributes)
    (fields : List (String × Option Json × Shape)) : Building Shape := do
  let name := Naming.pascalCase a.name
  let name ← if name = "" then recordName settings.anonymousModelName else pure name
  return .record name a.description (recordFields fields)

mutual

/-- Builds and registers an item. -/
def Item.build (settings : BuilderSettings) : Item → Building Shape
  | .mk a fields options => do
    let shape ←
      match a.target?, a.kind with
      | some target, _ => pure (.reference target)
      | none, .object => do buildRecord settings a (← Item.buildFields settings fields)
      | none, .union => do
        let shape ← buildUnion a (← Item.buildOptions settings options)
        pure (shape.describedBy a.description)
      | none, _ => do
        let shape ← buildLeaf a
        pure (shape.describedBy a.description)
    Building.register a shape
    return shape

/-- Builds the fields of an object. -/
def Item.buildFields (settings : BuilderSettings) :
    Option (List Item) → Building (List (String × Option Json × Shape))
  | none => return []
  | some xs => Item.buildFieldList settings xs

/-- Builds a list of fields. -/
def Item.buildFieldList (settings : BuilderSettings) :
    List Item → Building (List (String × Option Json × Shape))
  | [] => return []
  | x :: rest => do
    let shape ← x.build settings
    let rest ← Item.buildFieldList settings rest
    return (x.name, shape.asField x.attributes) :: rest

/-- Builds the options of a union. -/
def Item.buildOptions (settings : BuilderSettings) : Option (List Item) → Building (List Shape)
  | none => return []
  | some xs => Item.buildOptionList settings xs

/-- Builds a list of options. -/
def Item.buildOptionList (settings : BuilderSettings) : List Item → Building (List Shape)
  | [] => return []
  | x :: rest => do
    let shape ← x.build settings
    let rest ← Item.buildOptionList settings rest
    return shape.asOption x.attributes :: rest

end

/-! ## Models -/

/-- A built document: the shape of its root and what its references lead to. -/
structure Model where
  shape : Shape
  registry : Registry Shape

/-- Runs a building on a registry. -/
def Building.run (building : Building α) (registry : Registry Shape) :
    Logged (Except NameFault α × Registry Shape) :=
  building registry

/-- The shape of the root. -/
def Document.buildRoot (d : Document) (settings : BuilderSettings) : Building Shape := do
  let fields ← Item.buildFieldList settings d.fields
  let name ← recordName settings.rootModelName
  return .record name .null (recordFields fields)

/-- Builds a document. -/
def Document.build (d : Document) (settings : BuilderSettings) :
    Logged (Except NameFault Model) := do
  let (result, registry) ← (d.buildRoot settings).run {}
  return result.map fun shape => ⟨shape, registry⟩

end SchemaTree
