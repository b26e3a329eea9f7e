import SchemaTree.Tree.Traversal

/-!
# References

A reference names an item, which may itself refer to another one. A chain of references ends at the
first item that has none; it is unresolved if it reaches an id that no item has or meets an item for
a second time.
-/

namespace SchemaTree

/-- Follows a chain from an id on. `seen` holds the ids of the items with a reference met so far.
Every step adds an id of the table to it, so a bound of the number of items is never reached. -/
def ItemTable.follow (table : ItemTable) : Nat → List String → String → Option Item
  | bound, seen, id =>
    match table.find? id with
    | none => none
    | some x =>
      match x.attributes.target?, bound with
      | none, _ => some x
      | some _, 0 => none
      | some next, bound + 1 =>
        if x.id ∈ seen then none else ItemTable.follow table bound (x.id :: seen) next

/-- The item at the end of the chain of references that starts at an item with the given attributes;
`none` if there is no end, or no reference to begin with. -/
def ItemTable.resolve (table : ItemTable) (a : Attributes) : Option Item :=
  match a.target? with
  | none => none
  | some id => table.follow (table.length + 1) [a.id] id

end SchemaTree
