import SchemaTree.Event
import SchemaTree.Json.Basic

/-!
# Registries

A registry keeps what was built for each id, and for an id whose item refers to another one a link
to the id referred to. The first registration of an id wins, so that neither an entry nor a link
ever changes once the id has an entry.

An id is resolved by following links to the first id that has none. Since that can only become
possible with time and never changes once it was, what was found is kept.
-/

namespace SchemaTree

/-- What was built for each id. -/
structure Registry (α : Type) where
  /-- The entries by id, in the order of registration. -/
  entries : List (String × α) := []
  /-- Links from ids to the ids they refer to, in the order of registration. -/
  links : List (String × String) := []
  /-- Entries that were found before, by the id they were looked up with. -/
  found : List (String × α) := []

/-- The display notation of a reference to an id. -/
def referenceDisplay (id : String) : String := "LazyReference(" ++ Text.display id ++ ")"

namespace Registry

/-- Registers an id unless it is taken. An empty reference makes no link, and a link that an id had
before is replaced. -/
def register (r : Registry α) (id : String) (entry : α) (reference : Option String) : Registry α :=
  if (Json.Members.find? id r.entries).isSome then r
  else
    { r with
      entries := r.entries ++ [(id, entry)]
      links := match reference.filter (· ≠ "") with
        | none => r.links
        | some target => Json.Members.insert id target r.links }

/-- Follows links from an id for at most a number of steps; `none` if that is not the end. -/
def chase (links : List (String × String)) : Nat → String → Option String
  | bound, id =>
    match Json.Members.find? id links with
    | none => some id
    | some next =>
      match bound with
      | 0 => none
      | bound + 1 => chase links bound next

/-- The id at the end of the links from an id; `none` if they never end. A walk that ends takes each
link at most once. -/
def target? (r : Registry α) (id : String) : Option String := chase r.links r.links.length id

/-- The entry that an id leads to. Links that never end are reported. -/
def lookup (r : Registry α) (id : String) : Logged (Option α) :=
  match r.target? id with
  | none => do
    Logged.report (.referenceCycle id)
    return none
  | some target => return Json.Members.find? target r.entries

/-- The entry that an id leads to, by what was found before if possible, and the registry that also
keeps this one. -/
def resolve (r : Registry α) (id : String) : Logged (Option α × Registry α) :=
  match Json.Members.find? id r.found with
  | some entry => return (some entry, r)
  | none => do
    match ← r.lookup id with
    | none => return (none, r)
    | some entry => return (some entry, { r with found := r.found ++ [(id, entry)] })

end Registry

end SchemaTree
