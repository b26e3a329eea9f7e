import SchemaTree.Tree.IdSupply
import SchemaTree.Tree.Traversal

/-!
# Editing a tree

Creating items with the default shape of their kind, copying a subtree under fresh ids, and changing
the item that a search for an id finds.
-/

namespace SchemaTree

/-! ## New items -/

/-- An item with the default shape of its kind: an object has no fields yet, a union no options, a
literal is the empty string. -/
def Item.new (id : String) (kind : Kind) (name : String) : Item :=
  .mk { id, name, kind
        required := true
        isArray := false
        description := .str ""
        defaultValue := .null
        hasDefault := false
        literal := if kind = .literal then .str "" else .null
        reference := none }
    (if kind = .object then some [] else none)
    (if kind = .union then some [] else none)

/-! ## Copies -/

mutual

/-- A copy of an item and all below it, with fresh ids in pre-order. References are kept as they
are, also those to items that are copied along. -/
def Item.clone : Item → StateM IdSupply Item
  | .mk a fields options => do
    let id ← modifyGet IdSupply.fresh
    let fields ← Item.cloneSlot fields
    let options ← Item.cloneSlot options
    return .mk { a with id } fields options

/-- A copy of an optional list of children. -/
def Item.cloneSlot : Option (List Item) → StateM IdSupply (Option (List Item))
  | none => return none
  | some xs => do return some (← Item.cloneList xs)

/-- A copy of a list of children. -/
def Item.cloneList : List Item → StateM IdSupply (List Item)
  | [] => return []
  | x :: rest => do
    let x ← x.clone
    let rest ← Item.cloneList rest
    return x :: rest

end

/-! ## Changes -/

mutual

/-- Changes the item that `find?` finds. -/
def Item.modify? (id : String) (f : Item → Item) : Item → Option Item
  | .mk a fields options =>
    if a.id = id ∧ a.id ≠ rootId then some (f (.mk a fields options))
    else
      match Item.modifySlot? id f fields with
      | some fields => some (.mk a fields options)
      | none =>
        match Item.modifySlot? id f options with
        | some options => some (.mk a fields options)
        | none => none

/-- Changes the item that `findSlot?` finds. -/
def Item.modifySlot? (id : String) (f : Item → Item) :
    Option (List Item) → Option (Option (List Item))
  | none => none
  | some xs =>
    match Item.modifyList? id f xs with
    | some xs => some (some xs)
    | none => none

/-- Changes the item that `findList?` finds. -/
def Item.modifyList? (id : String) (f : Item → Item) : List Item → Option (List Item)
  | [] => none
  | x :: rest =>
    match x.modify? id f with
    | some x => some (x :: rest)
    | none =>
      match Item.modifyList? id f rest with
      | some rest => some (x :: rest)
      | none => none

end

/-- Changes the item that a search of the document finds; `none` if it finds none. -/
def Document.modify? (d : Document) (id : String) (f : Item → Item) : Option Document :=
  (Item.modifyList? id f d.fields).map Document.mk

/-- Changes the attributes of an item. -/
def Item.withAttributes (x : Item) (f : Attributes → Attributes) : Item :=
  .mk (f x.attributes) x.fields x.options

/-- The two lists of children. -/
inductive Slot where
  | fields
  | options
deriving DecidableEq, Repr

/-- Appends a child to a list of children, which is created if it is absent. -/
def Item.append (slot : Slot) (child : Item) : Item → Item
  | .mk a fields options =>
    match slot with
    | .fields => .mk a (some (fields.getD [] ++ [child])) options
    | .options => .mk a fields (some (options.getD [] ++ [child]))

/-- Appends an element to a default that is a list; `none` for any other default. -/
def Attributes.pushDefault? (element : Json) (a : Attributes) : Option Attributes :=
  match a.defaultValue with
  | .arr elements => some { a with defaultValue := .arr (elements ++ [element]) }
  | _ => none

/-- Appends a field to the root. -/
def Document.append (d : Document) (child : Item) : Document := ⟨d.fields ++ [child]⟩

end SchemaTree
