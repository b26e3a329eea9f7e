import SchemaTree.Emission.ClassModule
import SchemaTree.Naming.Words
import SchemaTree.Tree.Reference

/-!
# Names of definitions

Every object gets a class name and every union that some item refers to gets an alias, before any
text is made. Names are made from item names; a name that is taken or reserved gets the first free
number from two on.
-/

namespace SchemaTree

/-- A name with a number at its end; the first candidate has none. -/
def numbered (base : String) : Nat → String
  | 0 => base
  | n => base ++ toString (n + 1)

/-- A name that does not begin with a digit. -/
def withoutLeadingDigit (name : String) : String :=
  match name.toList with
  | c :: _ => if c.isDigit then "_" ++ name else name
  | [] => name

/-- The first of `base`, `base2`, `base3` and so on that is neither taken nor reserved. There are
more candidates than such names, so one is free. -/
def freeName (taken : List String) (base : String) : String :=
  let base := withoutLeadingDigit base
  let blocked := taken ++ reservedNames
  let candidates := (List.range (blocked.length + 1)).map (numbered base)
  (candidates.find? (· ∉ blocked)).getD base

/-- The names given out so far: class names and aliases by item id. Of items with the same id the
last one counts. -/
structure DefinitionNames where
  classes : List (String × String) := []
  aliases : List (String × String) := []
  taken : List String := []

/-- Names an object or a union that is referred to. -/
def DefinitionNames.add (referredTo : List String) (names : DefinitionNames) (x : Item) :
    DefinitionNames :=
  let pascal (fallback : String) :=
    let name := Naming.pascalCase x.name
    if name = "" then fallback else name
  if x.attributes.target?.isSome then names
  else if x.isObject then
    let name := freeName names.taken (pascal "Object")
    { names with
      classes := Json.Members.insert x.id name names.classes
      taken := name :: names.taken }
  else if x.isUnion ∧ x.id ∈ referredTo then
    let name := freeName names.taken (pascal "Union")
    { names with
      aliases := Json.Members.insert x.id name names.aliases
      taken := name :: names.taken }
  else names

/-- The ids that items refer to. -/
def Document.referredTo (d : Document) : List String :=
  d.items.filterMap fun x => x.attributes.target?

/-- The names of the definitions of a document. -/
def Document.definitionNames (d : Document) : DefinitionNames :=
  d.items.foldl (DefinitionNames.add d.referredTo) {}

/-- The name of the class of the root, made from a type name. -/
def DefinitionNames.rootName (names : DefinitionNames) (typeName : String) : String :=
  let name := Naming.pascalCase typeName
  freeName names.taken (if name = "" then "Schema" else name)

end SchemaTree
