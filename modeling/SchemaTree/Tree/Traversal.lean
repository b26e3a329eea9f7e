import SchemaTree.Tree.Basic

/-!
# Walking a tree

The items below a node in pre-order, an item before its children and fields before options; the
search for an id; and the table of items by id. Where an id occurs more than once the first item in
pre-order counts. The root's id never names an item in a search.
-/

namespace SchemaTree

/-! ## Pre-order -/

mutual

/-- The items strictly below an item. -/
def Item.descendants : Item → List Item
  | .mk _ fields options => Item.descendantsSlot fields ++ Item.descendantsSlot options

/-- The items in an optional list of children. -/
def Item.descendantsSlot : Option (List Item) → List Item
  | none => []
  | some xs => Item.descendantsList xs

/-- The items in a list of children. -/
def Item.descendantsList : List Item → List Item
  | [] => []
  | x :: rest => x :: (x.descendants ++ Item.descendantsList rest)

end

/-- The items of a document in pre-order. -/
def Document.items (d : Document) : List Item := Item.descendantsList d.fields

/-! ## Search -/

mutual

/-- The first item with an id, in pre-order from an item on. -/
def Item.find? (id : String) : Item → Option Item
  | .mk a fields options =>
    if a.id = id ∧ a.id ≠ rootId then some (.mk a fields options)
    else
      match Item.findSlot? id fields with
      | some found => some found
      | none => Item.findSlot? id options

/-- The first item with an id in an optional list of children. -/
def Item.findSlot? (id : String) : Option (List Item) → Option Item
  | none => none
  | some xs => Item.findList? id xs

/-- The first item with an id in a list of children. -/
def Item.findList? (id : String) : List Item → Option Item
  | [] => none
  | x :: rest =>
    match x.find? id with
    | some found => some found
    | none => Item.findList? id rest

end

/-- The first item of a document with an id. -/
def Document.find? (d : Document) (id : String) : Option Item := Item.findList? id d.fields

/-! ## The table by id -/

/-- A table of items by id, in the order in which the ids were added. -/
abbrev ItemTable := List (String × Item)

/-- Adds an item under its id unless the id is taken. -/
def ItemTable.add (table : ItemTable) (x : Item) : ItemTable :=
  if table.any (fun (id, _) => id = x.id) then table else table ++ [(x.id, x)]

/-- Looks up an id. -/
def ItemTable.find? (table : ItemTable) (id : String) : Option Item := Json.Members.find? id table

/-- The items of a document by id. -/
def Document.index (d : Document) : ItemTable := d.items.foldl ItemTable.add []

/-- An item and the items below it by id. -/
def Item.index (x : Item) : ItemTable := x.descendants.foldl ItemTable.add [(x.id, x)]

/-- The objects and unions of a document: the candidates for a reference. -/
def Document.referenceTargets (d : Document) : List Item := d.items.filter Item.isContainer

end SchemaTree
