import SchemaTree.Event
import SchemaTree.Tree.IdSupply
import SchemaTree.Tree.Traversal

/-!
# Reading documents

A document is read item by item. Three things make an item unreadable, and the first of them in
reading order is reported with its path: it is not an object, it has a reference that names nothing,
or its children are not a list. Reading order is the item's own checks, its fields from left to
right, its options from left to right. Everything else is coerced: references, ids, names and kinds
to text, flags by truth, and an item without an id gets a fresh one. What is coerced to text must
have one, which it has unless a whole number in it has too many digits; that is an error of another
class, and it is not reported with a path.
-/

namespace SchemaTree

/-- Why a document cannot be read. -/
inductive DecodeFault where
  | itemNotObject (typeWord : String)
  | rootNotObject (typeWord : String)
  | badReference
  | childrenNotList (slot typeWord : String)
  /-- What is coerced to text has none. -/
  | tooLong
deriving DecidableEq, Repr

/-- The wording of a fault. -/
def DecodeFault.message : DecodeFault → String
  | .itemNotObject typeWord => "node must be an object, got " ++ typeWord
  | .rootNotObject typeWord => "root must be an object, got " ++ typeWord
  | .badReference => "'lazy' must be an object with a 'refId'"
  | .childrenNotList slot typeWord => "'" ++ slot ++ "' must be a list, got " ++ typeWord
  | .tooLong => Json.tooLongMessage

/-- A fault and the path of the item that has it. -/
structure DecodeError where
  path : String
  fault : DecodeFault
deriving DecidableEq, Repr

/-- The wording of an error. -/
def DecodeError.message (e : DecodeError) : String :=
  if e.path = "" ∨ e.fault = .tooLong then e.fault.message else e.path ++ ": " ++ e.fault.message

/-- A step of reading: it draws on a supply of ids, reports events and may fail. -/
abbrev Reading (α : Type) := ExceptT DecodeError (StateT IdSupply Logged) α

/-- The path of a child. -/
def childPath (path slot : String) (index : Nat) : String :=
  path ++ "." ++ slot ++ "[" ++ toString index ++ "]"

/-! ## Attributes -/

/-- Coerces a value to text. -/
def readPlain (path : String) (value : Json) : Reading String :=
  if value.excess?.isSome then throw ⟨path, .tooLong⟩ else return value.plain

/-- The id an item refers to. -/
def readReference (path : String) (members : List (String × Json)) : Reading (Option String) :=
  match Json.Members.find? "lazy" members with
  | none | some .null => return none
  | some lazy =>
    match lazy.get? "refId" with
    | none | some .null => throw ⟨path, .badReference⟩
    | some target => some <$> readPlain path target

/-- The id of an item: as written, or fresh if there is none. -/
def readId (path : String) (members : List (String × Json)) : Reading String :=
  match Json.Members.find? "id" members with
  | some id => if id.truthy then readPlain path id else modifyGet IdSupply.fresh
  | none => modifyGet IdSupply.fresh

/-- The name of an item. -/
def readName (path : String) (members : List (String × Json)) : Reading String :=
  readPlain path ((Json.Members.find? "name" members).getD (.str ""))

/-- The kind of an item. A kind that does not exist is kept by name and reported. -/
def readKind (path : String) (members : List (String × Json)) : Reading Kind := do
  let written := (Json.Members.find? "type" members).getD (.str Kind.string.name)
  let kind := Kind.ofName (← readPlain path written)
  unless kind.isKnown do
    monadLift (Logged.report (.unknownKind written path))
  return kind

/-- The attributes of an item. -/
def readAttributes (path : String) (members : List (String × Json)) : Reading Attributes := do
  let find? (key : String) := Json.Members.find? key members
  let reference ← readReference path members
  let id ← readId path members
  let name ← readName path members
  let kind ← readKind path members
  return {
    id, name, kind, reference
    required := ((find? "required").getD (.bool true)).truthy
    isArray := ((find? "isArray").getD (.bool false)).truthy
    description := (find? "description").getD .null
    defaultValue := (find? "default").getD .null
    hasDefault := (find? "default").isSome
    literal := (find? "literalValue").getD .null }

/-! ## Items -/

mutual

/-- Reads an item at a path. -/
def readItem (path : String) : Json → Reading Item
  | .obj members => do
    let attributes ← readAttributes path members
    let fields ← readSlot path "fields" members
    let options ← readSlot path "options" members
    return .mk attributes fields options
  | value => throw ⟨path, .itemNotObject value.typeWord⟩

/-- Reads the children that an item holds under a key. -/
def readSlot (path slot : String) : List (String × Json) → Reading (Option (List Item))
  | [] => return none
  | (key, value) :: rest =>
    if key = slot then readChildren path slot value else readSlot path slot rest

/-- Reads a list of children; null stands for no list. -/
def readChildren (path slot : String) : Json → Reading (Option (List Item))
  | .null => return none
  | .arr elements => do return some (← readItems path slot 0 elements)
  | value => throw ⟨path, .childrenNotList slot value.typeWord⟩

/-- Reads children from an index on. -/
def readItems (path slot : String) (index : Nat) : List Json → Reading (List Item)
  | [] => return []
  | x :: rest => do
    let x ← readItem (childPath path slot index) x
    let rest ← readItems path slot (index + 1) rest
    return x :: rest

end

/-- The path of the root. -/
def rootPath : String := "$"

/-- Reads a document. The root's own type and id are not looked at. -/
def readDocument : Json → Reading Document
  | .obj members => do
    let fields ← readSlot rootPath "fields" members
    return ⟨fields.getD []⟩
  | value => throw ⟨rootPath, .rootNotObject value.typeWord⟩

/-- Runs a reading. -/
def Reading.run (reading : Reading α) (ids : IdSupply) : Logged (Except DecodeError α × IdSupply) :=
  reading ids

end SchemaTree
