/-!
# Fresh ids

An item without an id gets a fresh one. Ids come from a supply: a stem that no other supply shares,
followed by a counter, in the form `item_` and 36 characters in five groups.
-/

namespace SchemaTree

/-- A supply of ids. -/
structure IdSupply where
  /-- The first four groups of every id, with their hyphens. -/
  stem : String
  /-- The number of ids handed out. -/
  next : Nat := 0

namespace IdSupply

/-- The id with a given number. -/
def nth (supply : IdSupply) (n : Nat) : String :=
  let digits := Nat.toDigits 16 n
  "item_" ++ supply.stem ++ String.ofList (List.replicate (12 - digits.length) '0' ++ digits)

/-- The next id and the supply after it. -/
def fresh (supply : IdSupply) : String × IdSupply :=
  (supply.nth supply.next, { supply with next := supply.next + 1 })

end IdSupply

end SchemaTree
